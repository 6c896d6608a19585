import PhpCheck.Proofs.Reentry

/-!
# What runs add to the log

The log only grows, and an inference whose log is thrown away leaves it as it was. The changes that enter
and leave bodies tell which bodies a run has entered so far, and whether the one that it is in had been
entered before: an `Itinerary`. The flag that turns repeated reports off says just that, however deep
bodies are entered from bodies, and the set that is asked then holds what the log holds, so all that a run
adds to the log from inside a body it has been in before is new.
-/

namespace PhpCheck

namespace Session

variable {s : Session} {c : Change}

lemma log_prefix_apply (s : Session) (c : Change) :
    s.log.entries.toList <+: (s.apply c).log.entries.toList := by
  have hpush : ∀ d, s.log.entries.toList <+: (s.log.push d).entries.toList := by
    intro d
    simp [DiagnosticLog.push]
  cases c with
  | record file line finding =>
    simp only [apply, DiagnosticLog.pushOnce]
    split
    · split
      · exact List.prefix_refl _
      · exact hpush _
    · exact hpush _
  | _ => exact List.prefix_refl _

lemma log_apply_of_revisiting (h : s.revisiting = true) (c : Change) :
    (s.apply c).log = s.log ∨ ∃ d, d ∉ s.log.entries ∧ (s.apply c).log = s.log.push d := by
  cases c with
  | record file line finding =>
    simp only [apply, h, if_true, DiagnosticLog.pushOnce]
    split
    · exact .inl rfl
    · rename_i hnew
      refine .inr ⟨_, fun hold => hnew ?_, rfl⟩
      exact List.contains_iff_mem.mpr ((s.log.mem_seen _).mpr hold)
  | _ => exact .inl rfl

end Session

/-- The bodies that have been entered, and for those that are open, the innermost first, whether they had
been entered before. -/
structure Itinerary where
  entered : List CallableKey := []
  again : List Bool := []

namespace Itinerary

variable {i : Itinerary} {s : Session} {c : Change}

/-- The itinerary after a change. -/
def after (i : Itinerary) : Change → Itinerary
  | .beginWalk key => ⟨key :: i.entered, i.entered.contains key :: i.again⟩
  | .endWalk _ => ⟨i.entered, i.again.tail⟩
  | _ => i

/-- The itinerary after the changes of some steps. -/
def along (i : Itinerary) (steps : List (Session × Change)) : Itinerary :=
  steps.foldl (fun i step => i.after step.2) i

/-- Whether the innermost open body had been entered before. -/
def revisits (i : Itinerary) : Bool := i.again.head?.getD false

/-- The state has kept what the itinerary says. -/
structure Fits (i : Itinerary) (s : Session) : Prop where
  entered : ∀ key, key ∈ s.walked ↔ key ∈ i.entered
  revisiting : s.revisiting = i.revisits

/-- Each step starts in a state that fits the changes before it. -/
def Follows (i : Itinerary) : List (Session × Change) → Prop
  | [] => True
  | step :: rest => i.Fits step.1 ∧ (i.after step.2).Follows rest

lemma after_of_isWalk_eq_false (h : c.isWalk = false) : i.after c = i := by
  cases c with
  | beginWalk key => cases h
  | endWalk revisiting => cases h
  | _ => rfl

lemma Fits.of_isWalk_eq_false (h : i.Fits s) (hc : c.isWalk = false) : i.Fits (s.apply c) := by
  obtain ⟨hrevisiting, hwalked⟩ := s.apply_of_isWalk_eq_false hc
  constructor
  · rw [hwalked]
    exact h.entered
  · rw [hrevisiting]
    exact h.revisiting

lemma Fits.beginWalk (h : i.Fits s) (key : CallableKey) :
    (i.after (.beginWalk key)).Fits (s.apply (.beginWalk key)) := by
  have hagain : s.walked.contains key = i.entered.contains key := by
    rw [Bool.eq_iff_iff, List.contains_iff_mem, List.contains_iff_mem, h.entered]
  constructor
  · intro other
    have hentered := h.entered other
    simp only [Session.apply, after, List.mem_cons]
    split
    · rename_i hold
      have hkey : key ∈ s.walked := List.contains_iff_mem.mp hold
      constructor
      · exact fun hother => .inr (hentered.mp hother)
      · rintro (rfl | hother)
        · exact hkey
        · exact hentered.mpr hother
    · rw [List.mem_cons, hentered]
  · exact hagain

lemma Fits.endWalk {outer : Itinerary} {flag : Bool} (h : i.Fits s)
    (hagain : i.again = flag :: outer.again) :
    (i.after (.endWalk outer.revisits)).Fits (s.apply (.endWalk outer.revisits)) := by
  refine ⟨h.entered, ?_⟩
  rw [revisits, after, hagain]
  rfl

lemma follows_append {first rest : List (Session × Change)} :
    i.Follows (first ++ rest) ↔ i.Follows first ∧ (i.along first).Follows rest := by
  induction first generalizing i with
  | nil => simp [Follows, along]
  | cons step first ih =>
    rw [List.cons_append, Follows, Follows, ih, and_assoc]
    rfl

end Itinerary

namespace Analysis

variable {α β : Type} {s t : Session} {m : Analysis α} {a : α}

/-! ### The log only grows -/

lemma log_prefix_of_mem_moments (h : t ∈ m.moments s) :
    s.log.entries.toList <+: t.log.entries.toList := by
  refine Only.related (R := fun s t => s.log.entries.toList <+: t.log.entries.toList) ?_ ?_ ?_
    (only_true m) h
  · exact fun s => List.prefix_refl _
  · exact fun s t u => List.IsPrefix.trans
  · exact fun s c _ => s.log_prefix_apply c

/-! ### The itinerary of a run -/

/-- The states of the run fit its itinerary, and it ends in the body in which it starts. -/
def Tracked (s : Session) (m : Analysis α) : Prop :=
  ∀ i : Itinerary, i.Fits s → i.Follows (m.steps s) ∧
    ∀ a t, m.run s = .ok (a, t) →
      (i.along (m.steps s)).Fits t ∧ (i.along (m.steps s)).again = i.again

lemma tracked_of_only (hm : m.Only (fun c => c.isWalk = false) fun _ => False) (s : Session) :
    Tracked s m := by
  intro i hi
  have hkeeps : i.Follows (m.steps s) ∧ i.along (m.steps s) = i ∧
      ∀ a t, m.run s = .ok (a, t) → i.Fits t := by
    induction hm generalizing s with
    | done result =>
      refine ⟨trivial, rfl, fun a t hrun => ?_⟩
      cases hrun
      exact hi
    | fault h => exact h.elim
    | look _ ih => exact ih s s hi
    | change hc _ ih =>
      obtain ⟨hfollows, halong, hend⟩ := ih _ (hi.of_isWalk_eq_false hc)
      have hafter := Itinerary.after_of_isWalk_eq_false (i := i) hc
      refine ⟨⟨hi, ?_⟩, ?_, hend⟩
      · rw [hafter]
        exact hfollows
      · rw [steps, Itinerary.along, List.foldl_cons, hafter]
        exact halong
    | ask callee _ ih => exact ih _ s hi
  obtain ⟨hfollows, halong, hend⟩ := hkeeps
  refine ⟨hfollows, fun a t hrun => ?_⟩
  rw [halong]
  exact ⟨hend a t hrun, rfl⟩

lemma Tracked.bind {f : α → Analysis β} (hm : Tracked s m)
    (hf : ∀ a t, m.run s = .ok (a, t) → Tracked t (f a)) : Tracked s (m >>= f) := by
  intro i hi
  obtain ⟨hfollows, hend⟩ := hm i hi
  cases hrun : m.run s with
  | error e =>
    rw [steps_bind_of_error hrun]
    refine ⟨hfollows, fun b u hboth => ?_⟩
    obtain ⟨a, t, hfirst, -⟩ := run_bind_eq_ok hboth
    rw [hrun] at hfirst
    cases hfirst
  | ok r =>
    obtain ⟨a, t⟩ := r
    obtain ⟨hfits, hagain⟩ := hend a t hrun
    obtain ⟨hfollows', hend'⟩ := hf a t hrun _ hfits
    rw [steps_bind hrun, Itinerary.along, List.foldl_append]
    refine ⟨Itinerary.follows_append.mpr ⟨hfollows, hfollows'⟩, fun b u hboth => ?_⟩
    rw [run_bind_of_run hrun] at hboth
    obtain ⟨hfits', hagain'⟩ := hend' b u hboth
    exact ⟨hfits', hagain'.trans hagain⟩

lemma compositional_tracked : CompositionalOver (fun c => c.isWalk = false) Tracked :=
  .of_plain_bind (fun s hm => tracked_of_only hm s) Tracked.bind

/-- The flag that is put back at the end of the body is the one of the body around it. -/
lemma tracked_asWalkOf {key : CallableKey} (h : Tracked (s.apply (.beginWalk key)) m) :
    Tracked s (asWalkOf key m) := by
  intro i hi
  obtain ⟨hfollows, hend⟩ := h _ (hi.beginWalk key)
  cases hrun : m.run (s.apply (.beginWalk key)) with
  | error e =>
    have hsteps : (asWalkOf key m).steps s =
        (s, .beginWalk key) :: m.steps (s.apply (.beginWalk key)) :=
      congrArg _ (steps_bind_of_error hrun)
    refine ⟨?_, fun a t hwhole => ?_⟩
    · rw [hsteps]
      exact ⟨hi, hfollows⟩
    · obtain ⟨u, hbody, -⟩ := run_asWalkOf_eq_ok hwhole
      rw [hrun] at hbody
      cases hbody
  | ok r =>
    obtain ⟨a, u⟩ := r
    obtain ⟨hfits, hagain⟩ := hend a u hrun
    have hsteps : (asWalkOf key m).steps s = (s, .beginWalk key) ::
        (m.steps (s.apply (.beginWalk key)) ++ [(u, .endWalk s.revisiting)]) :=
      congrArg _ (steps_bind hrun)
    rw [hsteps]
    refine ⟨⟨hi, Itinerary.follows_append.mpr ⟨hfollows, hfits, trivial⟩⟩, fun b t hwhole => ?_⟩
    obtain ⟨v, hbody, rfl, -⟩ := run_asWalkOf_eq_ok hwhole
    rw [hrun] at hbody
    cases hbody
    rw [Itinerary.along, List.foldl_cons, List.foldl_append, hi.revisiting]
    refine ⟨hfits.endWalk hagain, ?_⟩
    exact congrArg List.tail hagain

lemma carried_tracked (table : SymbolTable) (units : List SourceUnit) :
    Carried table units fun _ _ _ => Tracked where
  graded _ := compositional_tracked.toSequential.graded
  fault _ _ s f i _ := ⟨trivial, fun _ _ hrun => by cases hrun⟩
  routine _ _ _ _ _ s hm := tracked_of_only (hm.mono (fun _ h => h.isWalk_eq_false) fun _ => id) s
  arrive _ _ _ s _ _ _ := tracked_of_only (Only.change (G := fun c => c.isWalk = false) rfl (.done _)) s
  returns _ _ _ s context _ _ _ := by
    have hlocal := context.isWalk_eq_false_of_isLocal
    exact tracked_of_only
      (only_checkReturn context.at_file (fun _ _ _ _ => trivial) hlocal fun _ _ => rfl) s
  noOp _ stop _ _ s context _ := tracked_of_only (only_checkNoOp (fun _ _ _ => rfl) _ _ _) s
  other _ _ _ _ _ _ h := h
  body _ _ _ _ _ _ _ _ _ _ _ h := tracked_asWalkOf h

lemma fits_of_steps_eq {setup : Setup} {units : List SourceUnit} {symbols : SymbolTable}
    (hcollect : SymbolTable.builtin.collectUnits units = .ok symbols)
    {before after : List (Session × Change)} {step : Session × Change}
    (hsteps : (walkUnits setup units).steps { symbols } = before ++ step :: after) :
    (Itinerary.along {} before).Fits step.1 := by
  have hstart : Itinerary.Fits {} { symbols } := ⟨fun _ => Iff.rfl, rfl⟩
  obtain ⟨hfollows, -⟩ := (carried_tracked symbols units).program hcollect setup {} hstart
  rw [hsteps] at hfollows
  exact (Itinerary.follows_append.mp hfollows).2.1

/-- The log is never cut back or rewritten. Inferring a type on an empty log and putting the old one back
leaves the whole state as it was, and gives `typeOf`, which is inferred with reports to any log. In every
state of a run the set of what has been seen holds what the log holds, and a step that is made inside a
body which the run had entered before adds to the log nothing that is in it. -/
theorem log_extended_by_news {setup : Setup} {units : List SourceUnit} {symbols : SymbolTable}
    (hcollect : SymbolTable.builtin.collectUnits units = .ok symbols) :
    (∀ (enter : Enter) (s t : Session) (context : Context) (parent : Option Node) (node : Node)
      (callee : CallableKey) (arguments : List Node),
      t ∈ (walk setup enter context parent node).moments s ∨
        t ∈ (check setup enter context parent node).moments s ∨
        t ∈ (call setup enter context callee arguments).moments s ∨
        t ∈ (typing context node).moments s →
      s.log.entries.toList <+: t.log.entries.toList) ∧
    (∀ (s : Session) (log : DiagnosticLog) (context : Context) (node : Node), ∃ extended,
      (typing context node).run { s with log } =
          .ok (typeOf s.symbols context node, { s with log := extended }) ∧
        log.entries.toList <+: extended.entries.toList ∧
        s.quietly (typing context node) = .ok (typeOf s.symbols context node, s) ∧
        (inferQuietly context node).run s = .ok (typeOf s.symbols context node, s)) ∧
    ∀ (before after : List (Session × Change)) (step : Session × Change),
      (walkUnits setup units).steps { symbols } = before ++ step :: after →
      (∀ d, d ∈ step.1.log.seen ↔ d ∈ step.1.log.entries) ∧
        step.1.revisiting = (Itinerary.along {} before).revisits ∧
        ((Itinerary.along {} before).revisits = true →
          (step.1.apply step.2).log = step.1.log ∨
            ∃ d, d ∉ step.1.log.entries ∧ (step.1.apply step.2).log = step.1.log.push d) := by
  refine ⟨?_, ?_, ?_⟩
  · rintro enter s t context parent node callee arguments (ht | ht | ht | ht)
    all_goals exact log_prefix_of_mem_moments ht
  · intro s log context node
    obtain ⟨extended, hrun⟩ := run_typing context node { s with log }
    have hprefix := log_prefix_of_mem_moments (mem_moments_of_run hrun)
    refine ⟨extended, hrun, hprefix, session_quietly_typing context node s, ?_⟩
    rw [inferQuietly_eq]
    rfl
  · intro before after step hsteps
    have hflag := (fits_of_steps_eq hcollect hsteps).revisiting
    refine ⟨step.1.log.mem_seen, hflag, fun hrevisits => ?_⟩
    rw [hrevisits] at hflag
    exact step.1.log_apply_of_revisiting hflag step.2

/-- A call tries `f` out with a number where its body adds an array: the walk of the body for the call is
not the first one, and reports a fault that the first one could not find. -/
theorem log_extended_by_news_trial :
    let sum : Node := ⟨2, .binary .add ⟨2, .var (.literal "x")⟩ ⟨2, .array []⟩⟩
    let units : List SourceUnit := [⟨"a.php", ⟨1, .statementList [
      ⟨1, .functionDecl ⟨"f", [⟨"x", none, false, false, none⟩], none,
        ⟨1, .statementList [⟨2, .echo sum⟩, ⟨3, .var (.literal "x")⟩]⟩⟩⟩,
      ⟨4, .call ⟨4, .identifier "f"⟩ [⟨4, .literal (.int 1)⟩]⟩]⟩, none⟩]
    ∃ symbols, SymbolTable.builtin.collectUnits units = .ok symbols ∧ ∃ before step after,
      (walkUnits {} units).steps { symbols } = before ++ step :: after ∧
      (Itinerary.along {} before).revisits = true ∧
      ∃ d, d ∉ step.1.log.entries ∧ (step.1.apply step.2).log = step.1.log.push d := by
  intro sum units
  apply exists_ok_of_any (fun symbols => ((walkUnits {} units).steps { symbols }).any fun step =>
    step.1.revisiting && decide ((step.1.apply step.2).log ≠ step.1.log))
  · decide +kernel
  · intro symbols hcollect hany
    obtain ⟨step, hmem, hstep⟩ := List.any_eq_true.mp hany
    obtain ⟨hrevisiting, hgrows⟩ : step.1.revisiting = true ∧
        (step.1.apply step.2).log ≠ step.1.log := by simpa using hstep
    obtain ⟨before, after, hsteps⟩ := List.append_of_mem hmem
    obtain ⟨-, -, hnews⟩ := @log_extended_by_news {} units symbols hcollect
    obtain ⟨-, hflag, hnew⟩ := hnews before after step hsteps
    rw [hrevisiting] at hflag
    exact ⟨before, step, after, hsteps, hflag.symm, (hnew hflag.symm).resolve_left hgrows⟩

end Analysis

end PhpCheck
