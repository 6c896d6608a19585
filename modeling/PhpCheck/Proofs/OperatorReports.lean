import PhpCheck.Proofs.Searches

/-!
# How often a faulty operator is reported

A check reports the faulty operators that it looks at, and nothing else reports any. In quick mode a program
without functions is walked once, so an operator is reported at most as often as it is looked at: once, and
once more for each assignment that hands on the type of its value.
-/

namespace PhpCheck

/-- Whether the diagnostic says that an operator on the line has an array on one side only. -/
def Diagnostic.isOperatorError (line : Line) (d : Diagnostic) : Bool :=
  d == (Finding.lonelyArray .left).diagnosticAt d.file line ||
    d == (Finding.lonelyArray .right).diagnosticAt d.file line

/-- The number of operators on the line that have been reported. -/
def Session.operatorErrors (line : Line) (s : Session) : Nat :=
  s.log.entries.countP (Diagnostic.isOperatorError line)

/-- Whether an operator on the line is reported. -/
def Change.reportsOperator (line : Line) : Change → Bool
  | .record _ place (.lonelyArray _) => place == line
  | _ => false

/-! ### The wording of reports -/

lemma head?_toList_append {a b : String} {c : Char} (h : a.toList.head? = some c) :
    (a ++ b).toList.head? = some c := by
  rw [String.toList_append, List.head?_append, h, Option.some_or]

/-- No other type error is worded like that. -/
lemma Finding.exists_eq_lonelyArray {finding : Finding} {side : Side} (hkind : finding.kind = .typeError)
    (hmessage : finding.message = (lonelyArray side).message) : ∃ side, finding = .lonelyArray side := by
  have hfirst : finding.message.toList.head? = some 'I' := by
    rw [hmessage]
    cases side <;> decide +kernel
  have hother : ∀ c : Char, c ≠ 'I' → finding.message.toList.head? ≠ some c := by
    intro c hc h
    rw [hfirst] at h
    exact hc (Option.some_inj.mp h).symm
  cases finding with
  | lonelyArray side => exact ⟨side, rfl⟩
  | undefinedReference | noOp | staticCall | groupingRisk => cases hkind
  | scalarForeach type =>
    -- this one may begin with any type, but it ends in another way
    have hlast : (type.text ++ " passed to foreach instead of array").toList.getLast? = some 'y' := by
      rw [String.toList_append, List.getLast?_append]
      rfl
    have hlast' : (lonelyArray side).message.toList.getLast? = some 't' := by
      cases side <;> decide +kernel
    rw [← hmessage] at hlast'
    exact absurd (hlast.symm.trans hlast') (by decide)
  | arrayToString => exact absurd (by decide +kernel) (hother 'a' (by decide))
  | argumentMismatch =>
    refine absurd ?_ (hother 'a' (by decide))
    iterate 7 apply head?_toList_append
    decide +kernel
  | returnMismatch =>
    refine absurd ?_ (hother 'r' (by decide))
    iterate 5 apply head?_toList_append
    decide +kernel
  | tooFewArguments | tooManyArguments =>
    refine absurd ?_ (hother 'c' (by decide))
    iterate 5 apply head?_toList_append
    decide +kernel

lemma Change.reportsOperator_of_isOperatorError {file : String} {place line : Line} {finding : Finding}
    (h : (finding.diagnosticAt file place).isOperatorError line = true) :
    (Change.record file place finding).reportsOperator line = true := by
  obtain ⟨side, hside⟩ : ∃ side, finding.diagnosticAt file place =
      (Finding.lonelyArray side).diagnosticAt file line := by
    rcases Bool.or_eq_true_iff.mp h with h | h
    · exact ⟨.left, beq_iff_eq.mp h⟩
    · exact ⟨.right, beq_iff_eq.mp h⟩
  obtain ⟨_, rfl⟩ := Finding.exists_eq_lonelyArray (congrArg Diagnostic.kind hside)
    (congrArg Diagnostic.message hside)
  exact beq_iff_eq.mpr (congrArg Diagnostic.line hside)

lemma Session.operatorErrors_apply_le (s : Session) (line : Line) (c : Change) :
    (s.apply c).operatorErrors line ≤
      s.operatorErrors line + if c.reportsOperator line then 1 else 0 := by
  cases c with
  | record file place finding =>
    have hpush : (s.log.push (finding.diagnosticAt file place)).entries.countP
        (Diagnostic.isOperatorError line) ≤ s.operatorErrors line +
          if (Change.record file place finding).reportsOperator line then 1 else 0 := by
      rw [DiagnosticLog.push, Array.countP_push]
      split
      · rename_i herror
        rw [if_pos (Change.reportsOperator_of_isOperatorError herror)]
        exact Nat.le_refl _
      · exact Nat.le_add_right ..
    simp only [apply, operatorErrors, DiagnosticLog.pushOnce]
    split
    · split
      · exact Nat.le_add_right ..
      · exact hpush
    · exact hpush
  | _ => exact Nat.le_add_right ..

namespace Analysis

variable {α β : Type} {line : Line} {n k : Nat} {setup : Setup} {enter : Enter} {context : Context}

/-! ### Actions that report no operator -/

/-- The action reports no operator on the line. -/
abbrev Spares (line : Line) (m : Analysis α) : Prop :=
  m.Only (fun c => c.reportsOperator line = false) fun _ => True

lemma spares_perform {c : Change} (h : c.reportsOperator line = false) : (perform c).Spares line :=
  .change h (.done _)

lemma spares_of_local {m : Analysis α} (h : m.Local "" fun _ => False) : m.Spares line := by
  refine h.mono (fun c hc => ?_) fun _ _ => trivial
  cases c with
  | record file place finding => exact absurd hc.2.1 id
  | _ => rfl

lemma spares_reportUndefined (error : LookupError) : (reportUndefined context error).Spares line :=
  Only.ite (spares_perform rfl) (.done _)

lemma spares_checkGrouping (node : Node) : (checkGrouping setup context node).Spares line := by
  unfold checkGrouping
  refine Only.ite ?_ (.done _)
  split
  · exact spares_perform rfl
  · exact .done _

lemma spares_checkNoOp (parent : Option Node) (node : Node) :
    (checkNoOp context parent node).Spares line := by
  unfold checkNoOp
  split
  · exact Only.ite (spares_perform rfl) (.done _)
  · exact .done _

lemma spares_checkStaticTarget (reference : Node) (key : CallableKey) :
    (checkStaticTarget context reference key).Spares line := by
  unfold checkStaticTarget
  refine only_symbols.bind fun table => ?_
  split
  · exact Only.ite (.done _) (spares_perform rfl)
  · exact .done _

lemma spares_assign (target : Node) (type : TypeSet) : (assign context target type).Spares line := by
  unfold assign
  cases placesOf target type with
  | error fault => exact .fault trivial
  | ok places =>
    refine Only.foldlM (fun _ => True) (fun b place _ => ⟨?_, results_true _⟩) places trivial
    exact spares_of_local (local_assignPlace ..)

lemma spares_bindReference (argument : Node) (types : TypeSet) :
    (bindReference context argument types).Spares line := by
  unfold bindReference
  split
  · exact .done _
  · refine only_symbols.bind fun table => ?_
    split
    · exact Only.bind (Only.forM fun owner _ => spares_perform rfl) fun _ => .done _
    · exact Only.bind (spares_reportUndefined _) fun _ => .done _
  · exact .done _

lemma spares_bindReferences (parameters : List Parameter) (types : Parameter → TypeSet)
    (arguments : List Node) : (bindReferences parameters types context arguments).Spares line := by
  refine Only.foldlM (fun _ => True) (fun b argument _ => ⟨?_, results_true _⟩) _ trivial
  dsimp only
  split
  · exact Only.ite (spares_bindReference _ _) (.done _)
  · exact .done _

lemma reportsOperator_of_mem_callFindings {s : SymbolTable} {name : String} {parameters : List Parameter}
    {types : List TypeSet} {finding : Finding} (h : finding ∈ callFindings s name parameters types)
    (file : String) (place : Line) : (Change.record file place finding).reportsOperator line = false := by
  rcases List.mem_append.mp h with h | h
  · simp only [arityFinding?, Option.mem_toList] at h
    split at h
    · cases h
      rfl
    · split at h
      · cases h
        rfl
      · cases h
  · obtain ⟨typed, -, h⟩ := List.mem_filterMap.mp h
    simp only [argumentFinding?] at h
    split at h
    · split at h
      · cases h
      · cases h
        rfl
    · cases h

lemma spares_checkArguments (callee : CallableKey) (types : List TypeSet) :
    (checkArguments context callee types).Spares line := by
  unfold checkArguments
  refine only_symbols.bind fun table => ?_
  split
  · exact .done _
  · refine (only_declaredParameters callee).bind fun parameters => Only.forM fun finding hfinding => ?_
    exact spares_perform (reportsOperator_of_mem_callFindings hfinding _ _)

/-! ### Counting the reports of an action -/

/-- A run of the action reports at most that many operators on the line. -/
def Adds (line : Line) (n : Nat) (m : Analysis α) : Prop :=
  ∀ s a t, m.run s = .ok (a, t) → t.operatorErrors line ≤ s.operatorErrors line + n

lemma adds_of_spares {m : Analysis α} (h : m.Spares line) : m.Adds line n := by
  intro s a t hrun
  refine Nat.le_add_right_of_le ?_
  refine Only.related (R := fun s t => t.operatorErrors line ≤ s.operatorErrors line) ?_ ?_ ?_ h
    (mem_moments_of_run hrun)
  · exact fun s => Nat.le_refl _
  · exact fun s t u hst htu => Nat.le_trans htu hst
  · intro s c hc
    have hle := s.operatorErrors_apply_le line c
    rwa [hc, if_neg Bool.false_ne_true, Nat.add_zero] at hle

lemma Adds.mono {m : Analysis α} (h : m.Adds line n) (hle : n ≤ k) : m.Adds line k :=
  fun s a t hrun => Nat.le_trans (h s a t hrun) (Nat.add_le_add_left hle _)

lemma Adds.bind {m : Analysis α} {f : α → Analysis β} (hm : m.Adds line n)
    (hf : ∀ a, (f a).Adds line k) : (m >>= f).Adds line (n + k) := by
  intro s b u hrun
  obtain ⟨a, t, ha, hb⟩ := run_bind_eq_ok hrun
  have hfirst := hm s a t ha
  have hrest := hf a t b u hb
  omega

lemma Adds.bind_spares {m : Analysis α} {f : α → Analysis β} (hm : m.Adds line n)
    (hf : ∀ a, (f a).Spares line) : (m >>= f).Adds line n :=
  hm.bind fun a => adds_of_spares (n := 0) (hf a)

lemma Adds.spares_bind {m : Analysis α} {f : α → Analysis β} (hm : m.Spares line)
    (hf : ∀ a, (f a).Adds line n) : (m >>= f).Adds line n :=
  ((adds_of_spares (n := 0) hm).bind hf).mono (Nat.le_of_eq (Nat.zero_add n))

lemma Finds.adds {file : String} {faults : List OperandFault} {a : α} {m : Analysis α}
    (h : Finds file faults a m) : m.Adds line (faults.countP (·.line == line)) := by
  induction h with
  | done result => exact adds_of_spares (.done _)
  | look _ ih => exact ih
  | @record fault _ _ _ _ ih =>
    intro s a t hrun
    have hrest := ih _ a t hrun
    have hfirst := s.operatorErrors_apply_le line (.record file fault.line (.lonelyArray fault.side))
    simp only [List.countP_cons, Change.reportsOperator, beq_iff_eq] at hfirst ⊢
    omega

lemma adds_typing (node : Node) :
    (typing context node).Adds line (node.searched.countP (Node.isArithmeticAt line)) := by
  refine Adds.spares_bind only_symbols fun table => (finds_inferring table context node).adds.mono ?_
  exact countP_faults_le table context line node

section Searches

variable {nodes : List Node}

lemma adds_forM_typing : (nodes.forM fun node => discard (typing context node)).Adds line
    ((nodes.flatMap Node.searched).countP (Node.isArithmeticAt line)) := by
  induction nodes with
  | nil => exact adds_of_spares (.done _)
  | cons node nodes ih =>
    rw [List.flatMap_cons, List.countP_append]
    exact Adds.bind (Adds.bind_spares (adds_typing node) fun _ => .done _) fun _ => ih

lemma adds_mapM_typing : (nodes.mapM (typing context)).Adds line
    ((nodes.flatMap Node.searched).countP (Node.isArithmeticAt line)) := by
  induction nodes with
  | nil => exact adds_of_spares (.done _)
  | cons node nodes ih =>
    rw [List.flatMap_cons, List.countP_append, List.mapM_cons]
    exact Adds.bind (adds_typing node) fun _ => ih.bind_spares fun _ => .done _

end Searches

/-! ### The check of a node -/

lemma adds_checkAssign (target value : Node) (byReference : Bool) :
    (checkAssign setup context target value byReference).Adds line
      (value.searched.countP (Node.isArithmeticAt line)) := by
  refine (adds_typing value).bind_spares fun type => (spares_assign target type).bind fun bound => ?_
  exact (spares_checkGrouping target).bind fun _ => (spares_checkGrouping value).bind fun _ => .done _

lemma adds_checkReturn (value : Option Node) :
    (checkReturn context value).Adds line
      ((value.toList.flatMap Node.searched).countP (Node.isArithmeticAt line)) := by
  unfold checkReturn
  split
  · exact adds_of_spares (.done _)
  · refine Adds.spares_bind only_symbols fun table => ?_
    split
    · exact adds_of_spares (.done _)
    -- what is done with the type is the same with and without a value
    rcases value with _ | value
    case' none => refine adds_of_spares ?_
    case' some =>
      rw [Option.toList_some, List.flatMap_singleton]
      refine (adds_typing value).bind_spares fun returned => ?_
    all_goals
      refine only_symbols.bind fun table => ?_
      split
      · exact .done _
      · exact Only.ite (spares_perform rfl) (Only.ite (.done _) (spares_perform rfl))

/-- In quick mode the callee is not entered. -/
lemma adds_call (hquick : setup.settings.quick = true) (callee : CallableKey) (arguments : List Node) :
    (call setup enter context callee arguments).Adds line
      ((arguments.flatMap Node.searched).countP (Node.isArithmeticAt line)) := by
  unfold call
  refine Adds.spares_bind only_symbols fun table => ?_
  split
  · exact adds_of_spares (.done _)
  · refine Adds.spares_bind (spares_perform rfl) fun _ => ?_
    refine Adds.spares_bind (only_declaredParameters callee) fun parameters => ?_
    refine adds_mapM_typing.bind_spares fun types => (spares_bindReferences ..).bind fun bound => ?_
    refine (spares_checkArguments ..).bind fun _ => (spares_bindReferences ..).bind fun typed => ?_
    rw [if_pos hquick]
    exact .done _

section Calls

variable (hquick : setup.settings.quick = true)

include hquick

lemma adds_checkCall (callee : Node) (arguments : List Node) :
    (checkCall setup enter context callee arguments).Adds line
      ((arguments.flatMap Node.searched).countP (Node.isArithmeticAt line)) := by
  unfold checkCall
  refine Adds.spares_bind (spares_checkGrouping callee) fun _ => ?_
  refine Adds.spares_bind (Only.forM fun argument _ => spares_checkGrouping argument) fun _ => ?_
  refine Adds.spares_bind only_symbols fun table => ?_
  split
  · split
    · exact adds_call hquick _ _
    · exact adds_of_spares ((spares_perform rfl).bind fun _ => .done _)
  · split
    · exact adds_call hquick _ _
    · exact adds_of_spares (.done _)
  · split
    · exact adds_call hquick _ _
    · exact adds_of_spares (.done _)
  · exact adds_of_spares (.done _)

lemma adds_checkNew (reference : Node) (arguments : List Node) :
    (checkNew setup enter context reference arguments).Adds line
      ((arguments.flatMap Node.searched).countP (Node.isArithmeticAt line)) := by
  unfold checkNew
  refine Adds.spares_bind only_symbols fun table => ?_
  split
  · exact adds_of_spares ((spares_reportUndefined _).bind fun _ => .done _)
  · refine Adds.spares_bind (spares_perform rfl) fun _ => Adds.spares_bind only_symbols fun table => ?_
    split
    · exact adds_call hquick _ _
    · exact adds_of_spares (.done _)

lemma adds_checkStaticCall (reference : Node) (method : String) (arguments : List Node) :
    (checkStaticCall setup enter context reference method arguments).Adds line
      ((arguments.flatMap Node.searched).countP (Node.isArithmeticAt line)) := by
  unfold checkStaticCall
  split
  · exact adds_of_spares ((spares_perform rfl).bind fun _ => .done _)
  · refine Adds.spares_bind only_symbols fun table => ?_
    split
    · exact adds_of_spares ((spares_reportUndefined _).bind fun _ => .done _)
    · exact Adds.spares_bind (spares_checkStaticTarget ..) fun _ => adds_call hquick _ _

lemma adds_checkMethodCall (receiver : Node) (method : String) (arguments : List Node) :
    (checkMethodCall setup enter context receiver method arguments).Adds line
      ((arguments.flatMap Node.searched).countP (Node.isArithmeticAt line)) := by
  unfold checkMethodCall
  refine Adds.spares_bind only_symbols fun table => ?_
  split
  · exact adds_of_spares ((spares_reportUndefined _).bind fun _ => .done _)
  · split
    · exact adds_call hquick _ _
    · exact adds_of_spares ((spares_perform rfl).bind fun _ => .done _)

/-- In quick mode the check of a node reports operators that it looks at, each at most once. -/
lemma adds_check (parent : Option Node) (node : Node) :
    (check setup enter context parent node).Adds line
      (node.inspected.countP (Node.isArithmeticAt line)) := by
  obtain ⟨place, kind⟩ := node
  have htyping : ∀ {β : Type} {value : Node} {f : TypeSet → Analysis β}, (∀ type, (f type).Spares line) →
      (typing context value >>= f).Adds line
        (([value].flatMap Node.searched).countP (Node.isArithmeticAt line)) := by
    intro β value f hf
    rw [List.flatMap_singleton]
    exact (adds_typing value).bind_spares hf
  have hcondition : ∀ condition : Node, (discard (typing context condition) >>= fun _ => pure context).Adds
      line (([condition].flatMap Node.searched).countP (Node.isArithmeticAt line)) :=
    fun condition => (htyping fun _ => .done _).bind_spares fun _ => .done _
  cases kind with
  | assign target value =>
    exact (adds_checkAssign target value false).mono (by simp [Node.inspected, Node.typedParts])
  | assignRef target value =>
    exact (adds_checkAssign target value true).mono (by simp [Node.inspected, Node.typedParts])
  | ifElement condition body | switchCase condition body =>
    cases condition with
    | none => exact adds_of_spares (.done _)
    | some condition => exact hcondition condition
  | whileLoop condition body | doWhile body condition | switch condition cases =>
    exact hcondition condition
  | expressionList expressions => exact adds_forM_typing.bind_spares fun _ => .done _
  | foreach subject key value body byReference =>
    refine htyping fun type => ?_
    exact Only.ite ((spares_perform rfl).bind fun _ => .done _) (.done _)
  | staticVar name default =>
    cases default with
    | none => exact adds_of_spares (.done _)
    | some default => exact htyping fun _ => .done _
  | echo value | print value =>
    refine htyping fun type => ?_
    exact Only.ite ((spares_perform rfl).bind fun _ => .done _) (.done _)
  | returnValue value => exact (adds_checkReturn value).bind_spares fun _ => .done _
  | call callee arguments => exact adds_checkCall hquick callee arguments
  | new reference arguments => exact adds_checkNew hquick reference arguments
  | staticCall reference name arguments =>
    cases name with
    | literal method => exact adds_checkStaticCall hquick reference method arguments
    | computed expression => exact adds_of_spares (.done _)
  | methodCall receiver name arguments =>
    cases name with
    | literal method => exact adds_checkMethodCall hquick receiver method arguments
    | computed expression => exact adds_of_spares (.done _)
  | instanceOf subject reference =>
    refine adds_of_spares (only_symbols.bind fun table => ?_)
    split
    · exact (spares_reportUndefined _).bind fun _ => .done _
    · exact .done _
  | dim base index =>
    refine adds_of_spares ?_
    simp only [check]
    exact Only.ite ((spares_checkGrouping _).bind fun _ => .done _) (.done _)
  | var | array | closure => exact adds_of_spares ((spares_checkNoOp ..).bind fun _ => .done _)
  | staticProp reference name =>
    refine adds_of_spares ((spares_of_local (local_useStaticProperty ..)).bind fun _ => ?_)
    exact (spares_checkNoOp ..).bind fun _ => .done _
  | const name =>
    refine adds_of_spares ((spares_of_local (local_useConstant ..)).bind fun _ => ?_)
    exact (spares_checkNoOp ..).bind fun _ => .done _
  | classConst reference name =>
    refine adds_of_spares ((spares_of_local (local_useClassConstant ..)).bind fun _ => ?_)
    exact (spares_checkNoOp ..).bind fun _ => .done _
  | prop object name =>
    refine adds_of_spares ((spares_of_local (local_useProperty ..)).bind fun _ => ?_)
    exact (spares_checkNoOp ..).bind fun _ => .done _
  | _ => exact adds_of_spares (.done _)

end Calls

end Analysis

/-! ### Walks -/

namespace Stop

lemma node_mem_nodes_of_mem_route {start stop : Stop} (h : stop ∈ start.route) :
    stop.node ∈ start.node.nodes := by
  refine forall_mem_route (P := fun stop => stop.node ∈ start.node.nodes) ?_ start.node.self_mem_nodes stop h
  intro stop hstop after hafter
  have hpart := Node.mem_nodes_of_child (node_mem_children_of_mem_next hafter) after.node.self_mem_nodes
  exact Node.mem_nodes_trans hstop hpart

lemma isCallable_of_declares? {stop : Stop} {key : CallableKey} (h : stop.declares? = some key) :
    stop.node.isCallable = true := by
  obtain ⟨file, owner, parent, place, kind⟩ := stop
  cases kind with
  | functionDecl | methodDecl | closure => rfl
  | _ => cases h

/-- A walk checks each part of a node once at most. -/
lemma countP_route_le (f : Node → List Node) (p : Node → Bool) (file : String) (owner : Option String)
    (parent : Option Node) (node : Node) :
    ((route ⟨file, owner, parent, node⟩).flatMap fun stop => f stop.node).countP p ≤
      (node.nodes.flatMap f).countP p := by
  induction node using Node.induction_on_children generalizing owner parent with
  | step node ih =>
    rw [Node.nodes_eq, List.flatMap_cons, List.countP_append]
    cases hcallable : node.isCallable with
    | true =>
      rw [route_of_isCallable hcallable, List.flatMap_singleton]
      exact Nat.le_add_right ..
    | false =>
      obtain ⟨inner, hnext⟩ := Visit.exists_next_eq_map hcallable owner
      have hparts := countP_flatMap_le fun child hchild => ih child hchild inner (some node)
      rw [route_of_parts parent hnext, List.flatMap_append, List.flatMap_assoc, List.flatMap_assoc,
        List.countP_append, List.flatMap_singleton, Nat.add_comm]
      exact Nat.add_le_add_left hparts _

end Stop

namespace Analysis

variable {line : Line} {setup : Setup} {enter : Enter}

/-- The run reports at most the operators on the line that the checks of the stops look at. -/
def Reports (line : Line) {α : Type} (stops : List Stop) (s : Session) (m : Analysis α) : Prop :=
  ∀ a t, m.run s = .ok (a, t) → t.operatorErrors line ≤ s.operatorErrors line +
    (stops.flatMap fun stop => stop.node.inspected).countP (Node.isArithmeticAt line)

lemma graded_reports (line : Line) : Graded (Reports line) where
  pure s a := (adds_of_spares (.done a)) s
  look h := h
  bind := by
    intro α β m f s first rest hm hf b u hrun
    obtain ⟨a, t, ha, hb⟩ := run_bind_eq_ok hrun
    have hfirst := hm a t ha
    have hrest := hf a t ha b u hb
    rw [List.flatMap_append, List.countP_append]
    omega

lemma attends_reports (hquick : setup.settings.quick = true) {stop : Stop}
    (hplain : stop.node.isCallable = false) : Attends (Reports line) setup enter stop where
  assign target _ s context type _ := (adds_of_spares (spares_assign target type)) s
  arrive s context _ := adds_of_spares (spares_perform rfl) s
  check _ s context _ := by
    intro a t hrun
    rw [List.flatMap_singleton]
    exact adds_check hquick stop.parent stop.node s a t hrun
  declare key hkey := by
    rw [Stop.isCallable_of_declares? hkey] at hplain
    cases hplain

lemma reports_walkUnits (hquick : setup.settings.quick = true) {units : List SourceUnit}
    (hplain : ∀ unit ∈ units, ∀ node ∈ unit.root.nodes, node.isCallable = false) (s : Session) :
    Reports line (units.flatMap fun unit => unit.stop.route) s (walkUnits setup units) := by
  refine (graded_reports line).forM (fun s unit hunit => (graded_reports line).discard ?_) s
  refine (graded_reports line).symbols ((graded_reports line).walk s none (fun stop hstop => ?_) ⟨rfl, rfl⟩)
  exact attends_reports hquick (hplain unit hunit _ (Stop.node_mem_nodes_of_mem_route hstop))

end Analysis

/-- In quick mode and without functions, methods and closures, no more operators on a line are reported than
are written there, but for those in assignments whose types are asked for: these are reported again. -/
theorem operator_errors_bounded {setup : Setup} {units : List SourceUnit} {outcome : Outcome}
    (hquick : setup.settings.quick = true)
    (hplain : ∀ unit ∈ units, ∀ node ∈ unit.root.nodes, node.isCallable = false)
    (h : analyzeUnits setup units = .ok outcome) (line : Line) :
    let nodes := units.flatMap fun unit => unit.root.nodes
    outcome.log.entries.countP (Diagnostic.isOperatorError line) ≤
      nodes.countP (Node.isArithmeticAt line) +
        (nodes.flatMap Node.reinspected).countP (Node.isArithmeticAt line) := by
  intro nodes
  cases hcollect : SymbolTable.builtin.collectUnits units with
  | error e =>
    rw [analyzeUnits, hcollect] at h
    cases h
  | ok symbols =>
    obtain ⟨session, hrun, rfl⟩ := Analysis.exists_run_of_analyzeUnits hcollect h
    have hstart : ({ symbols } : Session).operatorErrors line = 0 := rfl
    have hreports : session.operatorErrors line ≤ _ :=
      Analysis.reports_walkUnits hquick hplain { symbols } () session hrun
    have hroutes : ((units.flatMap fun unit => unit.stop.route).flatMap
        fun stop => stop.node.inspected).countP (Node.isArithmeticAt line) ≤
          (nodes.flatMap Node.inspected).countP (Node.isArithmeticAt line) := by
      rw [List.flatMap_assoc, List.flatMap_assoc]
      exact countP_flatMap_le fun unit _ => Stop.countP_route_le _ _ unit.path none none unit.root
    have hbudget : (nodes.flatMap Node.inspected).countP (Node.isArithmeticAt line) ≤
        nodes.countP (Node.isArithmeticAt line) +
          (nodes.flatMap Node.reinspected).countP (Node.isArithmeticAt line) := by
      have hle := Node.Budgeted.sublist (List.nil_sublist (units.map SourceUnit.root)) fun node _ =>
        node.budgeted (Node.isArithmeticAt line)
      rwa [List.flatMap_map] at hle
    rw [hstart, Nat.zero_add] at hreports
    exact Nat.le_trans hreports (Nat.le_trans hroutes hbudget)

/-- In the first file, the sum is reported for either assignment, and the difference beside it once. In the
second one, the assignment is an argument, and what it is given is a conditional expression. -/
theorem operator_errors_bounded_nested :
    let named (name : String) : Node := ⟨1, .var (.literal name)⟩
    let one : Node := ⟨1, .literal (.int 1)⟩
    let sum : Node := ⟨1, .binary .add ⟨1, .array [⟨none, one⟩]⟩ one⟩
    let difference : Node := ⟨1, .binary .subtract one ⟨1, .array []⟩⟩
    let assign (name : String) (value : Node) : Node := ⟨1, .assign (named name) value⟩
    let first : Node := ⟨1, .statementList [assign "x" (assign "y" sum), ⟨1, .echo difference⟩]⟩
    let argument : Node := assign "z" ⟨1, .conditional one (some sum) (named "x")⟩
    let second : Node := ⟨1, .statementList [⟨1, .print argument⟩]⟩
    let units : List SourceUnit := [⟨"a.php", first, none⟩, ⟨"b.php", second, none⟩]
    let setup : Setup := ⟨⟨false, true⟩, ∅⟩
    let nodes := units.flatMap fun unit => unit.root.nodes
    (∀ unit ∈ units, ∀ node ∈ unit.root.nodes, node.isCallable = false) ∧
    ∃ outcome, analyzeUnits setup units = .ok outcome ∧
      outcome.log.entries.countP (Diagnostic.isOperatorError 1) = 5 ∧
      nodes.countP (Node.isArithmeticAt 1) = 3 ∧
      outcome.log.entries.countP (Diagnostic.isOperatorError 1) ≤
        nodes.countP (Node.isArithmeticAt 1) +
          (nodes.flatMap Node.reinspected).countP (Node.isArithmeticAt 1) := by
  intro named one sum difference assign first argument second units setup nodes
  have hplain : ∀ unit ∈ units, ∀ node ∈ unit.root.nodes, node.isCallable = false := by
    have hall : (units.all fun unit => unit.root.nodes.all fun node => !node.isCallable) = true := by
      decide +kernel
    simpa using hall
  refine ⟨hplain, exists_ok_of_any
    (fun outcome => decide (outcome.log.entries.countP (Diagnostic.isOperatorError 1) = 5)) ?_ ?_⟩
  · decide +kernel
  · intro outcome houtcome hcount
    exact ⟨of_decide_eq_true hcount, by decide +kernel, operator_errors_bounded rfl hplain houtcome 1⟩

/-- A single operator in the inner one of two assignments is reported twice. -/
theorem operator_error_recorded_twice :
    let one : Node := ⟨1, .literal (.int 1)⟩
    let sum : Node := ⟨1, .binary .add ⟨1, .array [⟨none, one⟩]⟩ ⟨1, .literal (.int 2)⟩⟩
    let inner : Node := ⟨1, .assign ⟨1, .var (.literal "y")⟩ sum⟩
    let root : Node := ⟨1, .statementList [⟨1, .assign ⟨1, .var (.literal "x")⟩ inner⟩]⟩
    ∃ outcome, analyzeUnits ⟨⟨false, true⟩, ∅⟩ [⟨"a.php", root, none⟩] = .ok outcome ∧
      outcome.log.entries.countP (Diagnostic.isOperatorError 1) = 2 ∧
      root.nodes.countP (Node.isArithmeticAt 1) = 1 := by
  intro one sum inner root
  apply exists_ok_of_any
    (fun outcome => decide (outcome.log.entries.countP (Diagnostic.isOperatorError 1) = 2))
  · decide +kernel
  · intro outcome houtcome hcount
    exact ⟨of_decide_eq_true hcount, by decide +kernel⟩

end PhpCheck
