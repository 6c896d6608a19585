import PhpCheck.Proofs.ArgumentIndexing
import PhpCheck.Proofs.Termination

/-!
# What can be assigned to

An assignment takes its target apart down to variables and properties. It ends the run exactly if it
comes to something else on the way, so a program all of whose targets are assignable never ends with
that fault, whatever bodies are walked again in trials.
-/

namespace PhpCheck

/-- The node can hold a value, or is an index access or a pattern all the way down to such nodes. -/
inductive Node.IsAssignable : Node → Prop
  | var (line : Line) (name : Name) : IsAssignable ⟨line, .var name⟩
  | prop (line : Line) (object : Node) (name : Name) : IsAssignable ⟨line, .prop object name⟩
  | staticProp (line : Line) (owner : Node) (name : Name) : IsAssignable ⟨line, .staticProp owner name⟩
  | dim (line : Line) {base : Node} (index : Option Node) (h : IsAssignable base) :
    IsAssignable ⟨line, .dim base index⟩
  | listTarget (line : Line) {elements : List Node}
    (h : ∀ element ∈ elements, IsAssignable element) : IsAssignable ⟨line, .listTarget elements⟩
  | array (line : Line) {items : List ArrayItem} (h : ∀ item ∈ items, IsAssignable item.value) :
    IsAssignable ⟨line, .array items⟩

lemma exists_bind_eq_ok_iff {ε α β : Type} {m : Except ε α} {f : α → Except ε β} {P : Prop}
    (hf : ∀ a, (∃ b, f a = .ok b) ↔ P) : (∃ b, m >>= f = .ok b) ↔ (∃ a, m = .ok a) ∧ P := by
  cases m with
  | error e => simp [bind, Except.bind]
  | ok a => simpa [bind, Except.bind] using hf a

/-- A value can be spread over the places of a target if and only if the target is assignable. -/
lemma exists_placesOf_eq_ok_iff (target : Node) (type : TypeSet) :
    (∃ places, placesOf target type = .ok places) ↔ target.IsAssignable := by
  apply placesOf.induct
    (fun node type => (∃ places, placesOf node type = .ok places) ↔ node.IsAssignable)
    (fun items type => (∃ places, placesOfItems items type = .ok places) ↔
      ∀ item ∈ items, item.value.IsAssignable)
    (fun nodes type => (∃ places, placesOfNodes nodes type = .ok places) ↔
      ∀ node ∈ nodes, node.IsAssignable)
  case case7 =>
    intro line base index type ih
    rw [placesOf, ih]
    exact ⟨.dim line index, fun h => by cases h; assumption⟩
  case case8 =>
    intro line elements type ih
    rw [placesOf, ih]
    exact ⟨.listTarget line, fun h => by cases h; assumption⟩
  case case9 =>
    intro line items type ih
    rw [placesOf, ih]
    exact ⟨.array line, fun h => by cases h; assumption⟩
  -- the kinds of nodes that cannot hold a value
  case case10 =>
    intro line kind type hvar hprop hstatic hvar' hprop' hstatic' hdim hlist harray
    rw [placesOf]
    · constructor
      · rintro ⟨places, hplaces⟩
        cases hplaces
      · intro h
        cases h with
        | var line name =>
          cases name with
          | literal name => exact (hvar name rfl).elim
          | computed node => exact (hvar' node rfl).elim
        | prop line object name =>
          cases name with
          | literal name => exact (hprop object name rfl).elim
          | computed node => exact (hprop' object node rfl).elim
        | staticProp line owner name =>
          cases name with
          | literal name => exact (hstatic owner name rfl).elim
          | computed node => exact (hstatic' owner node rfl).elim
        | dim line index _ => exact (hdim _ index rfl).elim
        | listTarget line _ => exact (hlist _ rfl).elim
        | array line _ => exact (harray _ rfl).elim
    all_goals assumption
  case case11 =>
    intro type
    simp [placesOfNodes]
  case case12 =>
    intro node rest type hnode hrest
    rw [placesOfNodes, List.forall_mem_cons, ← hnode]
    refine exists_bind_eq_ok_iff fun first => ?_
    rw [← hrest]
    refine (exists_bind_eq_ok_iff fun more => ?_).trans (and_iff_left trivial)
    exact iff_of_true ⟨_, rfl⟩ trivial
  case case13 =>
    intro type
    simp [placesOfItems]
  case case14 =>
    intro key value rest type hvalue hrest
    rw [placesOfItems, List.forall_mem_cons, ← hvalue]
    refine exists_bind_eq_ok_iff fun first => ?_
    rw [← hrest]
    refine (exists_bind_eq_ok_iff fun more => ?_).trans (and_iff_left trivial)
    exact iff_of_true ⟨_, rfl⟩ trivial
  all_goals
    intros
    exact iff_of_true ⟨_, by rw [placesOf]⟩ (by constructor)

instance (target : Node) : Decidable target.IsAssignable :=
  decidable_of_iff ((placesOf target ∅).isOk = true) <| by
    rw [← exists_placesOf_eq_ok_iff target ∅]
    cases placesOf target ∅ with
    | error f => simp [Except.isOk, Except.toBool]
    | ok places => simp [Except.isOk, Except.toBool]

/-- All targets in the units are assignable. -/
def TargetsAssignable (units : List SourceUnit) : Prop :=
  ∀ unit ∈ units, ∀ node ∈ unit.root.nodes, ∀ target ∈ node.targets, target.IsAssignable

lemma TargetsAssignable.of_inUnits {units : List SourceUnit} (h : TargetsAssignable units)
    {file : String} {node : Node} (hnode : InUnits units file node) :
    ∀ target ∈ node.targets, target.IsAssignable := by
  obtain ⟨unit, hunit, -, hpart⟩ := hnode
  exact h unit hunit node hpart

namespace Analysis

variable {α β : Type}

/-! ### A single assignment -/

lemma Only.exists_run_eq_ok {G : Change → Prop} {m : Analysis α} (h : m.Only G fun _ => False)
    (s : Session) : ∃ a t, m.run s = .ok (a, t) := by
  cases hrun : m.run s with
  | ok r => exact ⟨r.1, r.2, rfl⟩
  | error f => exact (h.fault_of_run hrun).elim

lemma exists_run_assign_eq_ok {target : Node} (h : target.IsAssignable) (context : Context)
    (type : TypeSet) (s : Session) : ∃ after t, (assign context target type).run s = .ok (after, t) := by
  obtain ⟨places, hplaces⟩ := (exists_placesOf_eq_ok_iff target type).mpr h
  have hassign : assign context target type =
      places.foldlM (fun context place => assignPlace context place.1 place.2) context := by
    rw [assign, hplaces]
    rfl
  have hlocal : (assign context target type).Local context.file fun _ => True := by
    rw [hassign]
    refine Only.foldlM (fun _ => True) (fun after place _ => ?_) places trivial
    exact ⟨local_assignPlace after _ _, results_true _⟩
  exact hlocal.exists_run_eq_ok s

lemma run_assign_eq_error {target : Node} (h : ¬target.IsAssignable) (context : Context)
    (type : TypeSet) (s : Session) :
    ∃ line, (assign context target type).run s = .error (.notAssignable line) := by
  cases hplaces : placesOf target type with
  | ok places => exact absurd ((exists_placesOf_eq_ok_iff target type).mp ⟨places, hplaces⟩) h
  | error f =>
    obtain ⟨line, rfl⟩ := failsOnLine_placesOf target type f hplaces
    refine ⟨line, ?_⟩
    rw [assign, hplaces]
    rfl

/-! ### Whole runs -/

/-- Started in a state with the callables of the table, the action does not fail but by nesting without
end. -/
def Assigns (table : SymbolTable) {α : Type} (s : Session) (m : Analysis α) : Prop :=
  table.SameCores s.symbols → ∀ f, m.run s = .error f → ∃ key, f = .endlessNesting key

variable {table : SymbolTable} {setup : Setup} {enter : Enter} {units : List SourceUnit}

lemma compositional_assigns : Compositional (Assigns table) := by
  apply CompositionalOver.of_plain_bind
  · intro α m s hm _ f hf
    exact (hm.fault_of_run hf).elim
  · intro α β m next s hm hnext hcores f hf
    rcases run_bind_eq_error hf with hf | ⟨a, t, ha, hf⟩
    · exact hm hcores f hf
    · exact hnext a t ha (hcores.trans (sameCores_of_run ha)) f hf

lemma assigns_perform (s : Session) (c : Change) : Assigns table s (perform c) := by
  intro _ f hf
  cases hf

lemma assigns_assign {target : Node} (h : target.IsAssignable) (s : Session) (context : Context)
    (type : TypeSet) : Assigns table s (assign context target type) := by
  intro _ f hf
  obtain ⟨after, t, hrun⟩ := exists_run_assign_eq_ok h context type s
  rw [hrun] at hf
  cases hf

lemma assigns_call (henter : ∀ s key context, Assigns table s (enter key context)) (s : Session)
    (context : Context) (callee : CallableKey) (arguments : List Node) :
    Assigns table s (call setup enter context callee arguments) := by
  apply compositional_assigns.call
  intro s context types
  apply compositional_assigns.tryOut
  · intro s parameters scope
    exact assigns_perform s _
  · intro s _
    refine compositional_assigns.bind (assigns_perform s _) fun _ t _ => ?_
    refine compositional_assigns.bind (henter t callee context) fun result u _ => ?_
    exact compositional_assigns.bind (assigns_perform u _) fun _ v _ => compositional_assigns.pure v result

lemma assigns_walk (htargets : TargetsAssignable units)
    (henter : ∀ s key context, Assigns table s (enter key context)) {file : String}
    {owner : Option String} {node : Node} (hnode : InUnits units file node) (s : Session)
    {context : Context} (hcontext : Within file owner context) (parent : Option Node) :
    Assigns table s (walk setup enter context parent node) := by
  apply compositional_assigns.walk (assigns_call henter) _ s context parent hcontext
  intro visit hvisit
  constructor
  · intro target htarget s context type
    exact assigns_assign (htargets.of_inUnits (InUnits.of_mem_visits hnode hvisit) target htarget) s
      context type
  · intro decl _ s context _
    exact compositional_assigns.forM (fun s _ _ => assigns_perform s _) s
  · intro key _ s context _
    exact henter s key context

variable (htargets : TargetsAssignable units) (hbodies : table.BodiesIn (InUnits units))

include htargets hbodies

lemma assigns_enterBody (fuel : Nat) (s : Session) (key : CallableKey) (outer : Context) :
    Assigns table s (enterBody setup fuel key outer) := by
  induction fuel generalizing s key outer with
  | zero =>
    intro _ f hf
    cases hf
    exact ⟨key, rfl⟩
  | succ fuel ih =>
    apply compositional_assigns.enterBody
    intro c body hc hbody hcores
    have hnode : InUnits units c.site.file body :=
      hbodies.of_sameCores hcores key c body hc hbody
    exact assigns_walk htargets ih hnode _ (within_entryContext outer key c body) none hcores

lemma assigns_walkUnits (s : Session) : Assigns table s (walkUnits setup units) := by
  apply compositional_assigns.walkUnits
  intro unit hunit s
  have hroot : InUnits units unit.path unit.root := ⟨unit, hunit, rfl, unit.root.self_mem_nodes⟩
  exact assigns_walk htargets (assigns_enterBody htargets hbodies _) hroot s ⟨rfl, rfl⟩ none

omit htargets hbodies

/-- In whatever state and with whatever type, an assignment fails if and only if its target is not
assignable. If all targets in the units are assignable, no run over the units fails for a target, however
deep bodies may be entered from bodies. And a call reads no list out of range: it is the same if such a
read ends the run. -/
theorem only_unassignable_targets_fail (setup : Setup) :
    (∀ (context : Context) (target : Node) (type : TypeSet) (s : Session),
      ((∃ line, (assign context target type).run s = .error (.notAssignable line)) ↔
        ¬target.IsAssignable) ∧
      ((∃ after t, (assign context target type).run s = .ok (after, t)) ↔ target.IsAssignable)) ∧
    (∀ units : List SourceUnit, TargetsAssignable units →
      (∀ f, analyzeUnits setup units = .error (.fault f) → ∃ key, f = .endlessNesting key) ∧
      ∀ symbols, SymbolTable.builtin.collectUnits units = .ok symbols → ∀ (fuel : Nat) (s : Session),
        symbols.SameCores s.symbols → ∀ unit ∈ units, ∀ f,
        (walk setup (enterBody setup fuel) { file := unit.path, line := unit.root.line } none
          unit.root).run s = .error f → ∃ key, f = .endlessNesting key) ∧
    ∀ (f : Fault) (enter : Enter) (context : Context) (callee : CallableKey) (arguments : List Node),
      callIndexed f setup enter context callee arguments =
        call setup enter context callee arguments := by
  refine ⟨?_, ?_, ?_⟩
  · intro context target type s
    by_cases htarget : target.IsAssignable
    · obtain ⟨after, t, hrun⟩ := exists_run_assign_eq_ok htarget context type s
      rw [hrun]
      simp [htarget]
    · obtain ⟨line, hrun⟩ := run_assign_eq_error htarget context type s
      rw [hrun]
      simp [htarget]
  · intro units htargets
    constructor
    · intro f hfault
      cases hcollect : SymbolTable.builtin.collectUnits units with
      | error e => simp [analyzeUnits, hcollect] at hfault
      | ok symbols =>
        have hassigns : Assigns symbols { symbols } (walkUnits setup units) :=
          assigns_walkUnits htargets (bodiesIn_of_collectUnits hcollect) _
        cases hrun : (walkUnits setup units).run { symbols } with
        | ok r => simp [analyzeUnits, hcollect, hrun] at hfault
        | error e =>
          have he : e = f := by simpa [analyzeUnits, hcollect, hrun] using hfault
          exact he ▸ hassigns (SymbolTable.SameCores.refl symbols) e hrun
    · intro symbols hcollect fuel s hcores unit hunit f hrun
      have henter := @assigns_enterBody symbols setup units htargets (bodiesIn_of_collectUnits hcollect) fuel
      have hroot : InUnits units unit.path unit.root := ⟨unit, hunit, rfl, unit.root.self_mem_nodes⟩
      exact assigns_walk htargets henter hroot s ⟨rfl, rfl⟩ none hcores f hrun
  · intro f enter context callee arguments
    exact callIndexed_eq f setup enter context callee arguments

/-- A body with a nested pattern is walked again for each call in a loop over keys and properties; an
index access of what a call returns is no target, as deep as the call may be. -/
theorem only_unassignable_targets_fail_nestedPattern :
    let var (line : Line) (name : String) : Node := ⟨line, .var (.literal name)⟩
    let pattern : Node := ⟨1, .array [⟨none, var 1 "a"⟩,
      ⟨none, ⟨1, .listTarget [⟨1, .dim (var 1 "b") none⟩]⟩⟩]⟩
    let units : List SourceUnit := [⟨"a.php", ⟨1, .statementList [
      ⟨1, .functionDecl ⟨"f", [⟨"x", none, false, false, none⟩], none,
        ⟨1, .assign pattern (var 1 "x")⟩⟩⟩,
      ⟨2, .foreach ⟨2, .array [⟨none, ⟨2, .literal (.int 1)⟩⟩]⟩ (some (var 2 "k"))
        ⟨2, .prop (var 2 "o") (.literal "p")⟩
        ⟨3, .call ⟨3, .identifier "f"⟩ [var 3 "k"]⟩ false⟩]⟩, none⟩]
    let returned : Node := ⟨4, .dim ⟨4, .dim ⟨4, .call ⟨4, .identifier "f"⟩ []⟩ none⟩ none⟩
    TargetsAssignable units ∧ (∀ line, analyzeUnits {} units ≠ .error (.fault (.notAssignable line))) ∧
      ∀ (context : Context) (s : Session),
        ∃ line, (assign context returned (.of .int)).run s = .error (.notAssignable line) := by
  intro var pattern units returned
  have htargets : TargetsAssignable units := by
    unfold TargetsAssignable
    decide +kernel
  have hreturned : ¬returned.IsAssignable := by decide +kernel
  obtain ⟨hassign, hruns, -⟩ := only_unassignable_targets_fail {}
  refine ⟨htargets, ?_, fun context s => (hassign context returned (.of .int) s).1.mpr hreturned⟩
  intro line hfault
  obtain ⟨key, hkey⟩ := (hruns units htargets).1 _ hfault
  cases hkey

end Analysis

end PhpCheck
