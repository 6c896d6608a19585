import PhpCheck.Proofs.Conduct

/-!
# Return types along a run

A return type that is declared stays what it is. One that is not declared starts out as unknown, and once
types have been gathered for it, it is marked as gathered and only grows, also while the callable is
tried out with other parameters.
-/

namespace PhpCheck

/-- How the return type of a callable may change from one state to a later one. -/
structure Callable.ReturnGrows (c d : Callable) : Prop where
  inferred : c.returnInferred = true → d.returnInferred = true
  types : ∀ type ∈ c.returnType, type ∈ d.returnType
  undeclared : d.returnInferred = false → d.returnType = c.returnType
  declared : ¬c.GathersReturn → d.returnInferred = false

/-- What has become of the return type of a callable since it was collected. -/
structure Callable.ReturnFrom (c d : Callable) : Prop where
  declared : c.returnType ≠ ∅ → d.returnType = c.returnType ∧ d.returnInferred = false
  gathered : c.returnType = ∅ → d.returnType ≠ ∅ → d.returnInferred = true

/-- Every callable of `s` is one of `t`, and the two are related. -/
def SymbolTable.Follows (R : Callable → Callable → Prop) (s t : SymbolTable) : Prop :=
  ∀ key c, s.callable? key = some c → ∃ d, t.callable? key = some d ∧ R c d

namespace Callable.ReturnGrows

variable {c d e : Callable}

lemma of_eq (htype : d.returnType = c.returnType) (hinferred : d.returnInferred = c.returnInferred) :
    c.ReturnGrows d where
  inferred h := hinferred.trans h
  types type h := htype.symm ▸ h
  undeclared _ := htype
  declared h := by
    rw [hinferred]
    simpa using fun hinferred => h (.inl hinferred)

lemma refl (c : Callable) : c.ReturnGrows c := of_eq rfl rfl

lemma trans (hcd : c.ReturnGrows d) (hde : d.ReturnGrows e) : c.ReturnGrows e where
  inferred h := hde.inferred (hcd.inferred h)
  types type h := hde.types type (hcd.types type h)
  undeclared h := by
    have hd : d.returnInferred = false := by
      by_contra hd
      simp [hde.inferred (by simpa using hd)] at h
    exact (hde.undeclared h).trans (hcd.undeclared hd)
  declared h := by
    have hd : d.returnInferred = false := hcd.declared h
    refine hde.declared ?_
    rintro (hinferred | hempty)
    · simp [hd] at hinferred
    · exact h (.inr ((hcd.undeclared hd).symm.trans hempty))

lemma gatherReturn (h : c.GathersReturn) (types : TypeSet) : c.ReturnGrows (c.gatherReturn types) where
  inferred _ := rfl
  types _ h := TypeSet.mem_merge.mpr (.inl h)
  undeclared := nofun
  declared hdeclared := absurd h hdeclared

/-- Only a return type that is not declared has been changed since the callable was collected. -/
lemma returnFrom (h : c.ReturnGrows d) (hc : c.returnInferred = false) : c.ReturnFrom d where
  declared hne := by
    have hd : d.returnInferred = false := by
      refine h.declared ?_
      rintro (hinferred | hempty)
      · simp [hc] at hinferred
      · exact hne hempty
    exact ⟨h.undeclared hd, hd⟩
  gathered hempty hne := by
    by_contra hd
    exact hne ((h.undeclared (by simpa using hd)).trans hempty)

end Callable.ReturnGrows

lemma Edit.returnGrows_onCallable {e : Edit} {key : CallableKey} {c : Callable}
    (h : ∀ types, e = .gatherReturn key types → c.GathersReturn) :
    c.ReturnGrows (e.onCallable key c) := by
  cases e with
  | gatherReturn k types =>
    rw [onCallable]
    split
    · rename_i hkey
      exact .gatherReturn (h types (by rw [hkey])) types
    · exact .refl c
  | useCallable | capture | rebind =>
    rw [onCallable]
    split
    · exact .of_eq rfl rfl
    · exact .refl c
  | _ => exact .refl c

/-- A lawful change gathers types only for return types that are not declared. -/
lemma Session.follows_apply {units : List SourceUnit} {s : Session} {change : Change}
    (h : change.Lawful units s) :
    s.symbols.Follows Callable.ReturnGrows (s.apply change).symbols := by
  intro key c hc
  cases change with
  | edit e =>
    refine ⟨e.onCallable key c, ?_, Edit.returnGrows_onCallable ?_⟩
    · rw [apply, SymbolTable.callable?_edit, hc]
      rfl
    · rintro types rfl
      exact h c hc
  | _ => exact ⟨c, hc, .refl c⟩

lemma returnInferred_of_collectUnits {units : List SourceUnit} {symbols : SymbolTable}
    (h : SymbolTable.builtin.collectUnits units = .ok symbols) {key : CallableKey} {c : Callable}
    (hc : symbols.callable? key = some c) : c.returnInferred = false := by
  rcases exists_declaredBy_of_collectUnits h hc with hbuiltin | ⟨file, node, -, hdeclared⟩
  · have hall : ∀ f ∈ SymbolTable.builtinFunctions, f.returnInferred = false := by
      simp [SymbolTable.builtinFunctions, Callable.internal]
    exact hall c hbuiltin
  · exact hdeclared.returnInferred

namespace SymbolTable.Follows

variable {s t u : SymbolTable}

lemma refl (s : SymbolTable) : s.Follows Callable.ReturnGrows s := fun _ c hc => ⟨c, hc, .refl c⟩

lemma trans (hst : s.Follows Callable.ReturnGrows t) (htu : t.Follows Callable.ReturnGrows u) :
    s.Follows Callable.ReturnGrows u := by
  intro key c hc
  obtain ⟨d, hd, hcd⟩ := hst key c hc
  obtain ⟨e, he, hde⟩ := htu key d hd
  exact ⟨e, he, hcd.trans hde⟩

end SymbolTable.Follows

namespace Analysis

/-- At every point of a run over units whose declarations have been collected, a declared return type is
what it was, and one that is not declared is unknown or marked as gathered. From each point to every
later one, return types only grow and no mark is taken back. -/
theorem return_types_gathered {setup : Setup} {units : List SourceUnit} {symbols : SymbolTable}
    (hcollect : SymbolTable.builtin.collectUnits units = .ok symbols) :
    (∀ s ∈ (walkUnits setup units).moments { symbols },
      symbols.Follows Callable.ReturnFrom s.symbols) ∧
    ((walkUnits setup units).moments { symbols }).Pairwise (fun s t =>
      s.symbols.Follows Callable.ReturnGrows t.symbols) ∧
    ∀ outcome, analyzeUnits setup units = .ok outcome →
      symbols.Follows Callable.ReturnFrom outcome.symbols := by
  have hrefl := fun s : Session => SymbolTable.Follows.refl s.symbols
  have htrans := fun s t u : Session => @SymbolTable.Follows.trans s.symbols t.symbols u.symbols
  have hsteps : ∀ step ∈ (walkUnits setup units).steps { symbols },
      step.1.symbols.Follows Callable.ReturnGrows (step.1.apply step.2).symbols :=
    fun step hstep => Session.follows_apply (behaves_walkUnits hcollect step hstep)
  have hmoments : ∀ s ∈ (walkUnits setup units).moments { symbols },
      symbols.Follows Callable.ReturnFrom s.symbols := by
    intro s hs key c hc
    obtain ⟨d, hd, hcd⟩ := related_of_steps hrefl htrans hsteps hs key c hc
    exact ⟨d, hd, hcd.returnFrom (returnInferred_of_collectUnits hcollect hc)⟩
  refine ⟨hmoments, pairwise_moments_of_steps hrefl htrans hsteps, fun outcome h => ?_⟩
  obtain ⟨session, hrun, rfl⟩ := exists_run_of_analyzeUnits hcollect h
  exact hmoments session (mem_moments_of_run hrun)

/-- A function without a declared return type is tried out inside the trial of one with a declared one. -/
theorem return_types_gathered_nestedTrial :
    let call (line : Line) (name : String) (argument : Node) : Node :=
      ⟨line, .call ⟨line, .identifier name⟩ [argument]⟩
    let function (line : Line) (name : String) (type : Option String) (statements : List Node) : Node :=
      ⟨line, .functionDecl ⟨name, [⟨"x", none, false, false, none⟩], type,
        ⟨line, .statementList statements⟩⟩⟩
    let x (line : Line) : Node := ⟨line, .var (.literal "x")⟩
    let units : List SourceUnit := [⟨"a.php", ⟨1, .statementList [
      function 1 "f" none [⟨1, .returnValue (some (x 1))⟩],
      function 2 "g" (some "int") [call 2 "f" (x 2), ⟨2, .returnValue (some (x 2))⟩],
      call 3 "g" ⟨3, .literal (.string "s")⟩]⟩, none⟩]
    ∃ symbols, SymbolTable.builtin.collectUnits units = .ok symbols ∧
      ∃ s ∈ (walkUnits {} units).moments { symbols },
        (s.isOnTrial (.ofFunction "f") = true ∧ s.isOnTrial (.ofFunction "g") = true ∧
          ((s.symbols.callable? (.ofFunction "f")).map Callable.returnType) = some (.of .string)) ∧
        symbols.Follows Callable.ReturnFrom s.symbols := by
  intro call function x units
  apply exists_ok_of_any (fun symbols => decide (∃ s ∈ (walkUnits {} units).moments { symbols },
    s.isOnTrial (.ofFunction "f") = true ∧ s.isOnTrial (.ofFunction "g") = true ∧
      ((s.symbols.callable? (.ofFunction "f")).map Callable.returnType) = some (.of .string)))
  · decide +kernel
  · intro symbols hsymbols h
    obtain ⟨s, hs, htrials⟩ := of_decide_eq_true h
    exact ⟨s, hs, htrials, (return_types_gathered hsymbols).1 s hs⟩

end Analysis

end PhpCheck
