import PhpCheck.Proofs.LogGrowth
import PhpCheck.Proofs.Route
import Mathlib.Data.List.Infix

/-!
# Which grouping risks a walk records

An index access is checked by itself, or by the assignment or call around it. `Node.IsRisky` says which
accesses are to be reported, and the walk of a file reports all of them that it comes to, unless the access
stands in the index of another one: neither of the two checks gets there.
-/

namespace PhpCheck

/-! ### Risky accesses -/

/-- The node is a variable whose name is found in another variable, and so on; the last of them, after that
many steps, is known by name. -/
inductive Node.LeadsTo (name : String) : Nat → Node → Prop
  | here (line : Line) : LeadsTo name 0 ⟨line, .var (.literal name)⟩
  | step {steps : Nat} {inner : Node} (line : Line) (h : inner.LeadsTo name steps) :
    LeadsTo name (steps + 1) ⟨line, .var (.computed inner)⟩

/-- The braces on a line that settle what an index after a computed property name belongs to. -/
def propertyBraces : List (List Char) := [['\x7d', '['], [']', '\x7d'], ['>', '\x7b'], [':', '\x7b']]

/-- An index after the node is ambiguous on a line with the given text. -/
inductive Node.IsAmbiguous (text : List Char) : Node → String → Prop
  | indirect {name : String} {steps : Nat} {node : Node} (h : node.LeadsTo name (steps + 1))
    (hbraces : ¬('\x7b' ∈ text ∧ '\x7d' ∈ text)) :
    IsAmbiguous text node (String.ofList (List.replicate (steps + 2) '$') ++ name)
  | property (line objectLine nameLine : Line) (object name : String)
    (hbraces : ∀ braces ∈ propertyBraces, ¬braces <:+: text) :
    IsAmbiguous text
      ⟨line, .prop ⟨objectLine, .var (.literal object)⟩ (.computed ⟨nameLine, .var (.literal name)⟩)⟩
      ("$" ++ object ++ "->" ++ ("$" ++ name))
  | staticProperty (line ownerLine nameLine : Line) (owner name : String)
    (hbraces : ∀ braces ∈ propertyBraces, ¬braces <:+: text) :
    IsAmbiguous text
      ⟨line, .staticProp ⟨ownerLine, .identifier owner⟩ (.computed ⟨nameLine, .var (.literal name)⟩)⟩
      (owner ++ "::" ++ ("$" ++ name))

/-- The node is an index access, or a chain of them, that starts at an ambiguous expression. -/
inductive Node.IsRisky (text : List Char) (expression : String) : Node → Prop
  | access {base : Node} (line : Line) (index : Option Node) (h : base.IsAmbiguous text expression) :
    IsRisky text expression ⟨line, .dim base index⟩
  | again {inner : Node} (line : Line) (index : Option Node) (h : inner.IsRisky text expression) :
    IsRisky text expression ⟨line, .dim inner index⟩

lemma Text.occurs_iff_infix {pattern text : List Char} :
    occurs pattern text = true ↔ pattern <:+: text := by
  induction text with
  | nil => simp [occurs]
  | cons c rest ih => simp [occurs, ih, List.infix_cons_iff]

lemma settlesProperty_eq_false_iff {text : List Char} :
    settlesProperty text = false ↔ ∀ braces ∈ propertyBraces, ¬braces <:+: text := by
  rw [settlesProperty, List.any_eq_false]
  simp only [Text.occurs_iff_infix]
  rfl

lemma Node.LeadsTo.indirection_eq {name : String} {steps : Nat} {node : Node}
    (h : node.LeadsTo name steps) : indirection node = some (steps, name) := by
  induction h with
  | here line => rfl
  | step line _ ih => rw [indirection, ih]; rfl

lemma Node.IsAmbiguous.ambiguity? {text : List Char} {node : Node} {expression : String}
    (h : node.IsAmbiguous text expression) :
    ∃ found, PhpCheck.ambiguity? node = some found ∧ found.isSettledBy text = false ∧
      found.expression = expression := by
  cases h with
  | @indirect name steps node h hbraces =>
    have hsteps := h.indirection_eq
    cases h with
    | step line hinner =>
      refine ⟨⟨_, settlesVariable⟩, ?_, ?_, rfl⟩
      · simp only [PhpCheck.ambiguity?, hsteps]
        rfl
      · simpa [settlesVariable] using hbraces
  | property line objectLine nameLine object name hbraces =>
    exact ⟨⟨_, settlesProperty⟩, rfl, settlesProperty_eq_false_iff.mpr hbraces, rfl⟩
  | staticProperty line ownerLine nameLine owner name hbraces =>
    exact ⟨⟨_, settlesProperty⟩, rfl, settlesProperty_eq_false_iff.mpr hbraces, rfl⟩

lemma Node.IsRisky.exists_dim {text : List Char} {node : Node} {expression : String}
    (h : node.IsRisky text expression) :
    ∃ base index, node.kind = .dim base index ∧ (innermostBase base).IsAmbiguous text expression := by
  induction h with
  | @access base line index h =>
    have hbase : innermostBase base = base := by
      cases h with
      | indirect h => cases h; rfl
      | property => rfl
      | staticProperty => rfl
    exact ⟨base, index, rfl, hbase.symm ▸ h⟩
  | @again inner line index _ ih =>
    obtain ⟨base, innerIndex, hkind, hbase⟩ := ih
    obtain ⟨innerLine, kind⟩ := inner
    cases hkind
    exact ⟨_, index, rfl, hbase⟩

/-- What is risky is found out. -/
lemma Node.IsRisky.groupingRisk?_eq {sources : Sources} {file line expression : String} {node : Node}
    (h : node.IsRisky line.toList expression) (hline : sources.line? file node.line = some line) :
    groupingRisk? sources file node = some expression := by
  obtain ⟨base, index, hkind, hbase⟩ := h.exists_dim
  obtain ⟨found, hfound, hsettled, rfl⟩ := hbase.ambiguity?
  simp [groupingRisk?, hkind, hfound, hline, hsettled]

/-! ### Where accesses are checked -/

/-- The nodes in which the check of a stop looks for a risk. -/
def Stop.examined (stop : Stop) : List Node :=
  match stop.node.kind with
  | .dim _ _ => if (stop.parent.map Analysis.checksParts).getD false then [] else [stop.node]
  | .assign target value | .assignRef target value => [target, value]
  | .call callee arguments => callee :: arguments
  | _ => []

lemma Stop.exists_before_of_mem_route {start stop : Stop} (h : stop ∈ start.route) :
    stop = start ∨ ∃ before ∈ start.route, stop ∈ before.next := by
  obtain ⟨file, owner, parent, node⟩ := start
  induction node using Node.induction_on_children generalizing owner parent with
  | step node ih =>
    rcases mem_route_iff.mp h with rfl | ⟨after, hafter, h⟩
    · exact .inl rfl
    · have hchild := node_mem_children_of_mem_next hafter
      have hnext := hafter
      obtain ⟨visit, hvisit, rfl⟩ := List.mem_map.mp hafter
      rcases ih visit.node hchild visit.owner _ h with rfl | ⟨before, hbefore, hstop⟩
      · exact .inr ⟨_, self_mem_route _, hnext⟩
      · exact .inr ⟨before, mem_route_of_next hnext hbefore, hstop⟩

lemma Stop.examined_eq_nil {stop : Stop} {key : CallableKey} (h : stop.declares? = some key) :
    stop.examined = [] := by
  obtain ⟨file, owner, parent, line, kind⟩ := stop
  cases kind with
  | dim | assign | assignRef | call => cases h
  | _ => rfl

/-- Assignments and calls look at all their parts. -/
lemma Stop.mem_examined {stop : Stop} (hparts : Analysis.checksParts stop.node = true)
    (hdim : ∀ base index, stop.node.kind ≠ .dim base index) {part : Node}
    (hpart : part ∈ stop.node.children) : part ∈ stop.examined := by
  obtain ⟨file, owner, parent, line, kind⟩ := stop
  cases kind with
  | assign target value => exact hpart
  | assignRef target value => exact hpart
  | call callee arguments => exact hpart
  | dim base index => exact absurd rfl (hdim base index)
  | _ => cases hparts

/-- An access that is not a part of another one is looked at where it stands or by the node around it. -/
lemma Stop.exists_examined {start stop : Stop} (hstart : start.parent = none) (h : stop ∈ start.route)
    (hparent : ∀ parent ∈ stop.parent, ∀ base index, parent.kind ≠ .dim base index)
    {base : Node} {index : Option Node} (hkind : stop.node.kind = .dim base index) :
    ∃ place ∈ start.route, stop.node ∈ place.examined := by
  by_cases hparts : (stop.parent.map Analysis.checksParts).getD false = true
  · rcases exists_before_of_mem_route h with rfl | ⟨before, hbefore, hnext⟩
    · rw [hstart] at hparts
      cases hparts
    · have hchild := node_mem_children_of_mem_next hnext
      obtain ⟨visit, -, rfl⟩ := List.mem_map.mp hnext
      exact ⟨before, hbefore, mem_examined hparts (hparent before.node rfl) hchild⟩
  · refine ⟨stop, h, ?_⟩
    rw [examined, hkind]
    simp only [hparts]
    exact List.mem_singleton_self _

/-! ### The record of a walk -/

namespace Analysis

variable {α : Type} {setup : Setup} {enter : Enter}

/-- The risk of the node, if it is one, is in the log. -/
def Covers (setup : Setup) (file : String) (node : Node) (t : Session) : Prop :=
  ∀ expression, groupingRisk? setup.sources file node = some expression →
    (Finding.groupingRisk expression).diagnosticAt file node.line ∈ t.log.entries

lemma Covers.of_run {file : String} {node : Node} {m : Analysis α} {s t : Session} {a : α}
    (h : Covers setup file node s) (hrun : m.run s = .ok (a, t)) : Covers setup file node t :=
  fun expression hrisk => mem_log_of_run hrun (h expression hrisk)

/-- After the run, the log has the risks that the stops look for. -/
def Records (setup : Setup) {α : Type} (stops : List Stop) (s : Session) (m : Analysis α) : Prop :=
  ∀ a t, m.run s = .ok (a, t) → ∀ stop ∈ stops, ∀ node ∈ stop.examined, Covers setup stop.file node t

lemma graded_records (setup : Setup) : Graded (Records setup) where
  pure s a _ _ _ := List.forall_mem_nil _
  look h := h
  bind := by
    intro α β m f s first rest hm hf b u hrun stop hstop node hnode
    obtain ⟨a, t, ha, hb⟩ := run_bind_eq_ok hrun
    rcases List.mem_append.mp hstop with hstop | hstop
    · exact (hm a t ha stop hstop node hnode).of_run hb
    · exact hf a t ha b u hb stop hstop node hnode

lemma covers_checkGrouping (hchecks : setup.settings.groupingChecks = true) {context : Context}
    {node : Node} {s t : Session} (hrun : (checkGrouping setup context node).run s = .ok ((), t)) :
    Covers setup context.file node t := by
  intro expression hrisk
  simp only [checkGrouping, hchecks, hrisk] at hrun
  cases hrun
  exact s.mem_log_apply_of_records (beq_self_eq_true _)

lemma covers_forM_checkGrouping (hchecks : setup.settings.groupingChecks = true) {context : Context}
    {nodes : List Node} {s t : Session}
    (hrun : (nodes.forM (checkGrouping setup context)).run s = .ok ((), t)) :
    ∀ node ∈ nodes, Covers setup context.file node t := by
  induction nodes generalizing s with
  | nil => exact List.forall_mem_nil _
  | cons first rest ih =>
    obtain ⟨⟨⟩, u, hfirst, hrest⟩ := run_bind_eq_ok hrun
    exact List.forall_mem_cons.mpr ⟨(covers_checkGrouping hchecks hfirst).of_run hrest, ih hrest⟩

lemma covers_checkAssign (hchecks : setup.settings.groupingChecks = true) {context after : Context}
    {target value : Node} {byReference : Bool} {s t : Session}
    (hrun : (checkAssign setup context target value byReference).run s = .ok (after, t)) :
    ∀ node ∈ [target, value], Covers setup context.file node t := by
  have hfile := ((results_checkAssign context target value byReference).of_run hrun).continues.file
  obtain ⟨type, s₁, -, hrun⟩ := run_bind_eq_ok hrun
  obtain ⟨bound, s₂, hassign, hrun⟩ := run_bind_eq_ok hrun
  obtain ⟨⟨⟩, s₃, htarget, hrun⟩ := run_bind_eq_ok hrun
  obtain ⟨⟨⟩, s₄, hvalue, hrun⟩ := run_bind_eq_ok hrun
  cases hrun
  rw [← hfile]
  refine List.forall_mem_cons.mpr ⟨?_, List.forall_mem_singleton.mpr ?_⟩
  · exact (covers_checkGrouping hchecks htarget).of_run hvalue
  · exact covers_checkGrouping hchecks hvalue

lemma covers_checkCall (hchecks : setup.settings.groupingChecks = true) {context after : Context}
    {callee : Node} {arguments : List Node} {s t : Session}
    (hrun : (checkCall setup enter context callee arguments).run s = .ok (after, t)) :
    ∀ node ∈ callee :: arguments, Covers setup context.file node t := by
  obtain ⟨⟨⟩, s₁, hcallee, hrun⟩ := run_bind_eq_ok hrun
  obtain ⟨⟨⟩, s₂, harguments, hrun⟩ := run_bind_eq_ok hrun
  refine List.forall_mem_cons.mpr ⟨?_, fun node hnode => ?_⟩
  · exact ((covers_checkGrouping hchecks hcallee).of_run harguments).of_run hrun
  · exact (covers_forM_checkGrouping hchecks harguments node hnode).of_run hrun

/-- The check of a stop records the risks that it looks for. -/
lemma records_check (hchecks : setup.settings.groupingChecks = true) {stop : Stop} (s : Session)
    {context : Context} (hcontext : context.file = stop.file) :
    Records setup [stop] s (check setup enter context stop.parent stop.node) := by
  intro after t hrun
  refine List.forall_mem_singleton.mpr ?_
  rw [← hcontext]
  obtain ⟨file, owner, parent, line, kind⟩ := stop
  cases kind with
  | assign target value => exact covers_checkAssign hchecks hrun
  | assignRef target value => exact covers_checkAssign hchecks hrun
  | call callee arguments => exact covers_checkCall hchecks hrun
  | dim base index =>
    simp only [check] at hrun
    simp only [Stop.examined]
    cases hparts : (parent.map checksParts).getD false with
    | true => exact List.forall_mem_nil _
    | false =>
      rw [hparts] at hrun
      obtain ⟨⟨⟩, u, hrisk, hrun⟩ := run_bind_eq_ok hrun
      refine List.forall_mem_singleton.mpr ?_
      exact (covers_checkGrouping hchecks hrisk).of_run hrun
  | _ => exact List.forall_mem_nil _

lemma attends_records (hchecks : setup.settings.groupingChecks = true) (stop : Stop) :
    Attends (Records setup) setup enter stop where
  assign _ _ _ _ _ _ _ _ _ := List.forall_mem_nil _
  arrive _ _ _ _ _ _ := List.forall_mem_nil _
  check _ s context hreaches := records_check hchecks s hreaches.within.file
  declare key hkey s context hreaches := by
    intro after t _
    rw [List.forall_mem_singleton, Stop.examined_eq_nil hkey]
    exact List.forall_mem_nil _

/-- A walk that looks for grouping risks records every one that it comes to: each index access, as long as
it is not itself a part of another one, that starts at an ambiguous expression on a line without the braces
that settle it. -/
theorem risky_accesses_recorded {setup : Setup} {file : String} {root : Node} {s t : Session}
    {context : Context} (hchecks : setup.settings.groupingChecks = true)
    (hrun : (walkFile setup file root).run s = .ok (context, t)) {stop : Stop}
    (hstop : stop ∈ Stop.route ⟨file, none, none, root⟩)
    (hparent : ∀ parent ∈ stop.parent, ∀ base index, parent.kind ≠ .dim base index)
    {line expression : String} (hline : setup.sources.line? file stop.node.line = some line)
    (hrisky : stop.node.IsRisky line.toList expression) :
    (Finding.groupingRisk expression).diagnosticAt file stop.node.line ∈ t.log.entries := by
  obtain ⟨base, index, hkind, -⟩ := hrisky.exists_dim
  obtain ⟨place, hplace, hexamined⟩ := Stop.exists_examined rfl hstop hparent hkind
  have hrecords : Records setup (Stop.route ⟨file, none, none, root⟩) s
      (walk setup (enterBody setup s.symbols.nestingBound) { file, line := root.line } none root) :=
    (graded_records setup).walk s none (fun stop _ => attends_records hchecks stop) ⟨rfl, rfl⟩
  have hcovers := hrecords context t hrun place hplace stop.node hexamined
  rw [Stop.file_of_mem_route hplace] at hcovers
  exact hcovers expression (hrisky.groupingRisk?_eq hline)

/-- A property with a computed name stands in an operand, and a chain of accesses to a variable variable in
the argument of a call in the other one. -/
theorem risky_accesses_recorded_operands :
    let named (name : String) : Node := ⟨1, .var (.literal name)⟩
    let computed (inner : Node) : Node := ⟨1, .var (.computed inner)⟩
    let access (base : Node) : Node := ⟨1, .dim base (some ⟨1, .literal (.int 0)⟩)⟩
    let left : Node := access ⟨1, .prop (named "o") (.computed (named "p"))⟩
    let argument : Node := access (access (computed (computed (named "b"))))
    let right : Node := ⟨1, .call ⟨1, .identifier "g"⟩ [argument]⟩
    let sum : Node := ⟨1, .binary .add left right⟩
    let root : Node := ⟨1, .statementList [⟨1, .echo sum⟩]⟩
    let setup : Setup := ⟨⟨true, false⟩, Table.insert ∅ "a.php" "echo $o->$p[0] + g($$$b[0][0]);"⟩
    ∃ result, (walkFile setup "a.php" root).run { symbols := .builtin } = .ok result ∧
      (Finding.groupingRisk "$o->$p").diagnosticAt "a.php" 1 ∈ result.2.log.entries ∧
      (Finding.groupingRisk "$$$b").diagnosticAt "a.php" 1 ∈ result.2.log.entries := by
  intro named computed access left argument right sum root setup
  apply exists_ok_of_any (fun _ => true) (by decide +kernel)
  rintro ⟨context, t⟩ hrun -
  have hline : setup.sources.line? "a.php" 1 = some "echo $o->$p[0] + g($$$b[0][0]);" := by decide +kernel
  have hbraces : settlesProperty "echo $o->$p[0] + g($$$b[0][0]);".toList = false := by decide +kernel
  have hsum : ∀ stop, stop ∈ Stop.route ⟨"a.php", none, some ⟨1, .echo sum⟩, sum⟩ →
      stop ∈ Stop.route ⟨"a.php", none, none, root⟩ := fun stop h =>
    Stop.mem_route_of_next (.head _) (Stop.mem_route_of_next (.head _) h)
  have hleft : (⟨"a.php", none, some sum, left⟩ : Stop) ∈ Stop.route ⟨"a.php", none, none, root⟩ :=
    hsum _ (Stop.mem_route_of_next (.head _) (Stop.self_mem_route _))
  have hargument : (⟨"a.php", none, some right, argument⟩ : Stop) ∈
      Stop.route ⟨"a.php", none, none, root⟩ :=
    hsum _ (Stop.mem_route_of_next (.tail _ (.head _))
      (Stop.mem_route_of_next (.tail _ (.head _)) (Stop.self_mem_route _)))
  constructor
  · refine risky_accesses_recorded rfl hrun hleft ?_ hline ?_
    · rintro parent ⟨⟩ base index ⟨⟩
    · exact .access 1 _ (.property 1 1 1 "o" "p" (settlesProperty_eq_false_iff.mp hbraces))
  · refine risky_accesses_recorded rfl hrun hargument ?_ hline ?_
    · rintro parent ⟨⟩ base index ⟨⟩
    · exact .again 1 _ (.access 1 _ (.indirect (.step 1 (.step 1 (.here 1))) (by decide +kernel)))

/-- An access in the index of another one is not checked. -/
theorem risky_index_not_recorded :
    let inner : Node := ⟨1, .dim ⟨1, .var (.computed ⟨1, .var (.literal "a")⟩)⟩
      (some ⟨1, .literal (.int 0)⟩)⟩
    let outer : Node := ⟨1, .dim ⟨1, .var (.literal "x")⟩ (some inner)⟩
    let root : Node := ⟨1, .statementList [⟨1, .echo outer⟩]⟩
    let setup : Setup := ⟨⟨true, false⟩, Table.insert ∅ "a.php" "echo $x[$$a[0]];"⟩
    (⟨"a.php", none, some outer, inner⟩ : Stop) ∈ Stop.route ⟨"a.php", none, none, root⟩ ∧
      setup.sources.line? "a.php" inner.line = some "echo $x[$$a[0]];" ∧
      inner.IsRisky "echo $x[$$a[0]];".toList "$$a" ∧
      ∃ result, (walkFile setup "a.php" root).run { symbols := .builtin } = .ok result ∧
        result.2.log.entries.toList = [] := by
  intro inner outer root setup
  refine ⟨?_, by decide +kernel, ?_, ?_⟩
  · exact Stop.mem_route_of_next (.head _) (Stop.mem_route_of_next (.head _)
      (Stop.mem_route_of_next (.tail _ (.head _)) (Stop.self_mem_route _)))
  · exact .access 1 _ (.indirect (.step 1 (.here 1)) (by decide +kernel))
  · exact exists_ok_of_any (fun result => decide (result.2.log.entries.toList = [])) (by decide +kernel)
      fun _ _ hempty => of_decide_eq_true hempty

end Analysis

end PhpCheck
