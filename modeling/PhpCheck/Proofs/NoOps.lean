import PhpCheck.Proofs.Conduct
import PhpCheck.Proofs.Reentry

/-!
# How often a statement without effect is reported

A statement is on the route of at most one body, and the first walk of that body reports it. A later walk
reports it only if it gets there first, which takes a body that is entered from inside itself. So a
program has at most one report more of the same kind than it has such statements.
-/

namespace PhpCheck

/-- Whether the run over the units enters a body from inside itself. -/
def reentersBodies (setup : Setup) (units : List SourceUnit) : Bool :=
  match SymbolTable.builtin.collectUnits units with
  | .error _ => false
  | .ok symbols => reenters [] ((Analysis.walkUnits setup units).changes { symbols })

/-- The number of statements at a line of a file that are so described. -/
def statementCount (units : List SourceUnit) (file : String) (line : Line) (description : String) : Nat :=
  (units.flatMap SourceUnit.statements).countP fun (path, node) =>
    path == file && node.line == line && node.describe == description

lemma Finding.diagnosticAt_eq_noOp_iff {finding : Finding} {path file : String} {number line : Line}
    {description : String} :
    finding.diagnosticAt path number = (Finding.noOp description).diagnosticAt file line ↔
      finding = .noOp description ∧ path = file ∧ number = line := by
  constructor
  · intro h
    have hkind : finding.kind = .noOp := congrArg Diagnostic.kind h
    have hmessage : finding.message = "no-op " ++ description := congrArg Diagnostic.message h
    refine ⟨?_, congrArg Diagnostic.file h, congrArg Diagnostic.line h⟩
    cases finding with
    | noOp other => rw [(String.append_right_inj _).mp hmessage]
    | _ => cases hkind
  · rintro ⟨rfl, rfl, rfl⟩
    rfl

lemma countP_fits_noOp (units : List SourceUnit) (file : String) (line : Line) (description : String) :
    (units.flatMap SourceUnit.statements).countP
      ((Finding.noOp description).diagnosticAt file line).fits =
        statementCount units file line description := by
  refine List.countP_congr fun ⟨path, node⟩ _ => ?_
  rw [Diagnostic.fits, beq_iff_eq, Finding.diagnosticAt_eq_noOp_iff]
  simp only [Finding.noOp.injEq, Bool.and_eq_true, beq_iff_eq]
  tauto

lemma HasStatement.statementCount_pos {units : List SourceUnit} {file : String} {line : Line}
    {description : String} (h : HasStatement units file line description) :
    0 < statementCount units file line description := by
  obtain ⟨list, node, ⟨unit, hunit, hpath, hlist⟩, hstatements, hnode, hline, hdescribe⟩ := h
  refine List.countP_pos_iff.mpr ⟨(file, node), List.mem_flatMap.mpr ⟨unit, hunit, ?_⟩, ?_⟩
  · refine List.mem_flatMap.mpr ⟨list, hlist, List.mem_map.mpr ⟨node, ?_, by rw [hpath]⟩⟩
    rwa [Node.statements, if_pos hstatements]
  · simp [hline, hdescribe]

section Programs

variable {setup : Setup} {units : List SourceUnit} {symbols : SymbolTable} {t : Session}

lemma statementCount_pos_of_mem_log
    (hcollect : SymbolTable.builtin.collectUnits units = .ok symbols)
    (hrun : (Analysis.walkUnits setup units).run { symbols } = .ok ((), t)) {file : String} {line : Line}
    {description : String} (h : (Finding.noOp description).diagnosticAt file line ∈ t.log.entries) :
    0 < statementCount units file line description := by
  rcases Analysis.exists_step_of_mem_log hrun h with h | ⟨step, hstep, path, number, finding, hc, heq⟩
  · simp at h
  · have hlawful := Analysis.behaves_walkUnits hcollect step hstep
    rw [hc] at hlawful
    obtain ⟨rfl, rfl, rfl⟩ := Finding.diagnosticAt_eq_noOp_iff.mp heq.symm
    exact (hlawful.2 description rfl).statementCount_pos

lemma countP_isLate_eq_zero (hcollect : SymbolTable.builtin.collectUnits units = .ok symbols)
    (hrun : (Analysis.walkUnits setup units).run { symbols } = .ok ((), t))
    (hreenters : reenters [] ((Analysis.walkUnits setup units).changes { symbols }) = false)
    {d : Diagnostic} (hd : d.kind = .noOp) :
    ((Analysis.walkUnits setup units).steps { symbols }).countP d.isLate = 0 := by
  have htimely := (Analysis.carried_timely symbols units hd).program hcollect setup () t hrun
  obtain ⟨hlate, -⟩ := htimely.2 hreenters (List.forall_mem_nil _) fun h => absurd h Bool.false_ne_true
  exact List.countP_eq_zero.mpr fun step hstep => by simp [hlate step hstep]

end Programs

/-- However often bodies are walked, a statement without effect is reported at most once more than it is
written, and never if it is not written. It is reported once more only if a body is entered from inside
itself, which a run in quick mode does not do. -/
theorem noOps_recorded {setup : Setup} {units : List SourceUnit} {outcome : Outcome}
    (h : analyzeUnits setup units = .ok outcome) (file : String) (line : Line) (description : String) :
    let recorded := outcome.log.entries.count ((Finding.noOp description).diagnosticAt file line)
    let written := statementCount units file line description
    recorded ≤ written + 1 ∧ (written = 0 → recorded = 0) ∧
      (setup.settings.quick = true ∨ reentersBodies setup units = false → recorded ≤ written) := by
  intro recorded written
  cases hcollect : SymbolTable.builtin.collectUnits units with
  | error e =>
    rw [analyzeUnits, hcollect] at h
    cases h
  | ok symbols =>
    obtain ⟨session, hrun, rfl⟩ := Analysis.exists_run_of_analyzeUnits hcollect h
    let d := (Finding.noOp description).diagnosticAt file line
    have hcount : recorded ≤
        written + ((Analysis.walkUnits setup units).steps { symbols }).countP d.isLate := by
      have hle := Analysis.count_le_of_run (d := d) hcollect rfl hrun
      rwa [countP_fits_noOp] at hle
    refine ⟨?_, fun hwritten => ?_, fun hmode => ?_⟩
    · have hlate := Analysis.countP_isLate_le d (Analysis.walkUnits setup units) { symbols }
      simp only [DiagnosticLog.entries_empty, Array.not_mem_empty, if_false] at hlate
      omega
    · by_contra hrecorded
      have hmem : d ∈ session.log.entries := Array.count_pos_iff.mp (Nat.pos_of_ne_zero hrecorded)
      have hpos := statementCount_pos_of_mem_log hcollect hrun hmem
      omega
    · have hreenters : reenters [] ((Analysis.walkUnits setup units).changes { symbols }) = false := by
        rcases hmode with hquick | hnot
        · exact Analysis.reenters_walkUnits hquick hrun
        · simpa [reentersBodies, hcollect] using hnot
      have hlate := countP_isLate_eq_zero hcollect hrun hreenters (d := d) rfl
      omega

/-- Two calls try out a function that is walked where it is declared: its body is walked three times, and
what is wrong with it is reported once. -/
theorem noOps_recorded_threeWalks :
    let x (line : Line) : Node := ⟨line, .var (.literal "x")⟩
    let call (line : Line) (argument : Literal) : Node :=
      ⟨line, .call ⟨line, .identifier "f"⟩ [⟨line, .literal argument⟩]⟩
    let units : List SourceUnit := [⟨"a.php", ⟨1, .statementList [
      ⟨1, .functionDecl ⟨"f", [⟨"x", none, false, false, none⟩], none, ⟨1, .statementList [x 2]⟩⟩⟩,
      call 4 (.int 1), call 5 (.string "s")]⟩, none⟩]
    ∃ outcome, analyzeUnits {} units = .ok outcome ∧ reentersBodies {} units = false ∧
      outcome.log.entries.count ((Finding.noOp "variable").diagnosticAt "a.php" 2) = 1 ∧
      outcome.log.entries.count ((Finding.noOp "variable").diagnosticAt "a.php" 2) ≤
        statementCount units "a.php" 2 "variable" := by
  intro x call units
  apply exists_ok_of_any (fun outcome => decide
    (outcome.log.entries.count ((Finding.noOp "variable").diagnosticAt "a.php" 2) = 1))
  · decide +kernel
  · intro outcome houtcome hcount
    have hreenters : reentersBodies {} units = false := by decide +kernel
    obtain ⟨-, -, hle⟩ := noOps_recorded houtcome "a.php" 2 "variable"
    exact ⟨hreenters, of_decide_eq_true hcount, hle (.inr hreenters)⟩

/-- The first walk of `f` tries out `g`, and that tries out `f`: the second walk of `f` reports the
variable, and then the first one comes to it and reports it again. -/
theorem noOp_recorded_twice :
    let call (line : Line) (name : String) (argument : Node) : Node :=
      ⟨line, .call ⟨line, .identifier name⟩ [argument]⟩
    let function (line : Line) (name parameter : String) (statements : List Node) : Node :=
      ⟨line, .functionDecl ⟨name, [⟨parameter, none, false, false, none⟩], none,
        ⟨line, .statementList statements⟩⟩⟩
    let units : List SourceUnit := [⟨"a.php", ⟨1, .statementList [
      function 1 "f" "a" [call 2 "g" ⟨2, .literal (.int 1)⟩, ⟨3, .var (.literal "x")⟩],
      function 5 "g" "b" [call 6 "f" ⟨6, .var (.literal "b")⟩]]⟩, none⟩]
    ∃ outcome, analyzeUnits {} units = .ok outcome ∧
      outcome.log.entries.count ((Finding.noOp "variable").diagnosticAt "a.php" 3) = 2 ∧
      statementCount units "a.php" 3 "variable" = 1 := by
  intro call function units
  apply exists_ok_of_any (fun outcome => decide
    (outcome.log.entries.count ((Finding.noOp "variable").diagnosticAt "a.php" 3) = 2))
  · decide +kernel
  · intro outcome houtcome hcount
    exact ⟨of_decide_eq_true hcount, by decide +kernel⟩

end PhpCheck
