import PhpCheck.Proofs.Runs

/-!
# What a run may do

Every finding is recorded at the line of a node of a unit for its file, a statement without effect at a
statement with that description, and types are gathered only for a return type that is not declared. A
run arrives only at declarations on its way, in a context that is at them. All this is said of single
changes, so that it can be used at every point of a run.
-/

namespace PhpCheck

/-- Some statement of the units for that file is at the line and is so described. -/
def HasStatement (units : List SourceUnit) (file : String) (line : Line) (description : String) : Prop :=
  ∃ list node, InUnits units file list ∧ list.isStatementList = true ∧ node ∈ list.children ∧
    node.line = line ∧ node.describe = description

/-- The return type of the callable is not declared. -/
def Callable.GathersReturn (c : Callable) : Prop := c.returnInferred = true ∨ c.returnType = ∅

/-- What holds of a change that a run over the units makes in a state. -/
def Change.Lawful (units : List SourceUnit) (s : Session) : Change → Prop
  | .edit (.gatherReturn key _) => ∀ c, s.symbols.callable? key = some c → c.GathersReturn
  | .record file line finding => (∃ node, InUnits units file node ∧ node.line = line) ∧
    ∀ description, finding = .noOp description → HasStatement units file line description
  | .arrive context node key => ∃ stop : Stop, stop.Reached units s.symbols ∧
    Analysis.Reaches stop context ∧ stop.node = node ∧ stop.declares? = key
  | _ => True

lemma Change.IsLocal.lawful {units : List SourceUnit} {stop : Stop} (hstop : stop.Sound units)
    {c : Change} (h : c.IsLocal stop.file stop.node.HasLine) (s : Session) : c.Lawful units s := by
  cases c with
  | record file line finding =>
    obtain ⟨rfl, ⟨part, hpart, hline⟩, hkind⟩ := h
    obtain ⟨unit, hunit, hpath, hnode⟩ := hstop.node
    refine ⟨⟨part, ⟨unit, hunit, hpath, Node.mem_nodes_trans hnode hpart⟩, hline⟩, ?_⟩
    rintro description rfl
    exact absurd rfl hkind
  | edit e =>
    cases e with
    | gatherReturn => cases h
    | _ => trivial
  | arrive => cases h
  | _ => trivial

lemma Change.IsRoutine.lawful {units : List SourceUnit} {stop : Stop} (hstop : stop.Sound units)
    {c : Change} (h : c.IsRoutine stop.file stop.node.HasLine) (s : Session) : c.Lawful units s := by
  unfold IsRoutine at h
  split at h
  all_goals first
    | trivial
    | exact h.lawful hstop s

namespace Analysis

/-- Every change that the action makes is lawful in the state in which it is made. -/
def Behaves (units : List SourceUnit) {α : Type} (s : Session) (m : Analysis α) : Prop :=
  ∀ step ∈ m.steps s, step.2.Lawful units step.1

variable {units : List SourceUnit} {α : Type}

lemma sequential_behaves (units : List SourceUnit) : Sequential (Behaves units) :=
  sequential_steps fun step => step.2.Lawful units step.1

lemma behaves_perform {s : Session} {c : Change} (h : c.Lawful units s) :
    Behaves units s (perform c) := by
  intro step hstep
  rw [List.mem_singleton.mp hstep]
  exact h

lemma behaves_checkReturn {stop : Stop} (hstop : stop.Sound units) (s : Session) {context : Context}
    (hreaches : Reaches stop context) {value : Option Node}
    (hvalue : ∀ v ∈ value, v ∈ stop.node.children) : Behaves units s (checkReturn context value) := by
  have hQ := sequential_behaves units
  have hlocal : ∀ {α : Type} {m : Analysis α} (s : Session),
      m.Local stop.file stop.node.HasLine → Behaves units s m :=
    fun s hm step hstep => (hm.of_mem_steps hstep).lawful hstop step.1
  unfold checkReturn
  split
  · exact hQ.pure s _
  · refine hQ.symbols ?_
    split
    · exact hQ.pure s _
    · rcases value with _ | value
      case' some =>
        have hlines : ∀ line, value.HasLine line → stop.node.HasLine line :=
          fun line hline => hline.of_child (hvalue value rfl)
        refine hQ.bind (hlocal s (local_typing hreaches.at.file hlines)) fun returned s _ => ?_
      all_goals
        refine hQ.symbols ?_
        split
        · exact hQ.pure s _
        · rename_i key _ c hc
          split
          · rename_i hopen
            refine behaves_perform fun d hd => ?_
            cases hc.symm.trans hd
            rw [Bool.or_eq_true, TypeSet.isEmpty_iff] at hopen
            exact hopen
          · split
            · exact hQ.pure s _
            · exact hlocal s (local_report hreaches.at (by simp [Finding.kind]))

lemma behaves_checkNoOp {stop : Stop} (hstop : stop.Sound units) (s : Session) {context : Context}
    (hreaches : Reaches stop context) :
    Behaves units s (checkNoOp context stop.parent stop.node) := by
  have hfile : context.file = stop.file := hreaches.within.file
  unfold checkNoOp
  split
  · rename_i list hlist
    split
    · rename_i hstatements
      obtain ⟨hin, hchild⟩ := hstop.parent list hlist
      refine behaves_perform ⟨⟨stop.node, hfile ▸ hstop.node, hreaches.line.symm⟩, ?_⟩
      rintro description ⟨⟩
      exact ⟨list, stop.node, hfile ▸ hin, hstatements, hchild, hreaches.line.symm, rfl⟩
    · exact (sequential_behaves units).pure s _
  · exact (sequential_behaves units).pure s _

lemma carried_behaves (table : SymbolTable) (units : List SourceUnit) :
    Carried table units fun _ _ _ => Behaves units where
  graded _ := (sequential_behaves units).graded
  fault _ _ _ _ := List.forall_mem_nil _
  routine _ stop hstop _ _ s hm step hstep := (hm.of_mem_steps hstep).lawful hstop step.1
  arrive _ stop hreached _ _ hcores hreaches :=
    behaves_perform ⟨stop, hreached.of_sameCores hcores.symm, hreaches, rfl, rfl⟩
  returns _ stop hstop s context value hreaches hvalue := behaves_checkReturn hstop s hreaches hvalue
  noOp _ stop hstop _ s context hreaches := behaves_checkNoOp hstop s hreaches
  other _ _ _ _ _ _ h := h
  body _ key s _ _ _ _ _ _ _ _ hm := by
    have hQ := sequential_behaves units
    refine hQ.look (hQ.bind (behaves_perform trivial) fun _ t hrun => ?_)
    cases hrun
    refine hQ.bind hm fun result u _ => hQ.bind (behaves_perform trivial) fun _ v _ => hQ.pure v _

lemma behaves_walkUnits {setup : Setup} {symbols : SymbolTable}
    (hcollect : SymbolTable.builtin.collectUnits units = .ok symbols) :
    Behaves units { symbols } (walkUnits setup units) :=
  (carried_behaves symbols units).program hcollect setup

/-! ### The log -/

lemma mem_log_apply_record {s : Session} {file : String} {line : Line} {finding : Finding}
    {d : Diagnostic} (h : d ∈ (s.apply (.record file line finding)).log.entries) :
    d ∈ s.log.entries ∨ d = finding.diagnosticAt file line := by
  have hpush : ∀ e, d ∈ (s.log.push e).entries → d ∈ s.log.entries ∨ d = e := fun _ => Array.mem_push.mp
  simp only [Session.apply] at h
  split at h
  · rw [DiagnosticLog.pushOnce] at h
    split at h
    · exact .inl h
    · exact hpush _ h
  · exact hpush _ h

/-- An entry of the log was there at the start, or a step has recorded it. -/
lemma exists_step_of_mem_log {m : Analysis α} {s t : Session} {a : α} (hrun : m.run s = .ok (a, t))
    {d : Diagnostic} (hd : d ∈ t.log.entries) : d ∈ s.log.entries ∨
      ∃ step ∈ m.steps s, ∃ file line finding, step.2 = .record file line finding ∧
        d = finding.diagnosticAt file line := by
  induction m generalizing s with
  | done result =>
    cases hrun
    exact .inl hd
  | fault f => cases hrun
  | look rest ih => exact ih s hrun
  | ask callee rest ih => exact ih _ hrun
  | change c rest ih =>
    rcases ih () hrun with hd | ⟨step, hstep, hrecord⟩
    · cases c with
      | record file line finding =>
        refine (mem_log_apply_record hd).imp_right fun hd => ?_
        exact ⟨_, List.mem_cons_self .., file, line, finding, rfl, hd⟩
      | _ => exact .inl hd
    · exact .inr ⟨step, List.mem_cons_of_mem _ hstep, hrecord⟩

end Analysis

/-- Every diagnostic of a program is about the line of a node in a unit for its file. -/
theorem diagnostics_at_nodes {setup : Setup} {units : List SourceUnit} {outcome : Outcome}
    (h : analyzeUnits setup units = .ok outcome) {d : Diagnostic} (hd : d ∈ outcome.log.entries) :
    ∃ unit ∈ units, unit.path = d.file ∧ ∃ node ∈ unit.root.nodes, node.line = d.line := by
  cases hcollect : SymbolTable.builtin.collectUnits units with
  | error e =>
    rw [analyzeUnits, hcollect] at h
    cases h
  | ok symbols =>
    obtain ⟨session, hrun, rfl⟩ := Analysis.exists_run_of_analyzeUnits hcollect h
    rcases Analysis.exists_step_of_mem_log hrun hd with hd | ⟨step, hstep, file, line, finding, hc, rfl⟩
    · simp at hd
    · have hlawful := Analysis.behaves_walkUnits hcollect step hstep
      rw [hc] at hlawful
      obtain ⟨⟨node, ⟨unit, hunit, hpath, hnode⟩, hline⟩, -⟩ := hlawful
      exact ⟨unit, hunit, hpath, node, hnode, hline⟩

/-- A function is declared in one file and tried out from another: the finding is about the loop in its
body. -/
theorem diagnostics_at_nodes_crossFile :
    let loop : Node := ⟨4, .foreach ⟨5, .var (.literal "a")⟩ none ⟨5, .var (.literal "v")⟩
      ⟨6, .statementList []⟩ false⟩
    let units : List SourceUnit := [
      ⟨"main.php", ⟨1, .statementList [
        ⟨2, .call ⟨2, .identifier "f"⟩ [⟨2, .literal (.int 1)⟩]⟩]⟩, none⟩,
      ⟨"lib.php", ⟨1, .statementList [⟨3, .functionDecl ⟨"f", [⟨"a", none, false, false, none⟩], none,
        ⟨3, .statementList [loop]⟩⟩⟩]⟩, none⟩]
    let d := (Finding.scalarForeach (.of .int)).diagnosticAt "lib.php" 4
    ∃ outcome, analyzeUnits {} units = .ok outcome ∧ d ∈ outcome.log.entries ∧
      ∃ unit ∈ units, unit.path = d.file ∧ ∃ node ∈ unit.root.nodes, node.line = d.line := by
  intro loop units d
  apply exists_ok_of_any (fun outcome => decide (d ∈ outcome.log.entries))
  · decide +kernel
  · intro outcome houtcome hentries
    have hd : d ∈ outcome.log.entries := of_decide_eq_true hentries
    exact ⟨hd, diagnostics_at_nodes houtcome hd⟩

end PhpCheck
