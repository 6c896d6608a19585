import PhpCheck.Proofs.Traversal

/-!
# Calls are checked against declared signatures

While a callee is tried out, its parameters are not those that it is declared with; those are kept with
the trial. A state is `Faithful` to what was collected if every trial keeps what was collected, and every
callable that is not on trial has what was collected. Between the moment in which a callee is given other
parameters and the beginning of its trial, and again after the end of it, this fails for the callee
alone, the `hole`; nothing is asked then.
-/

namespace PhpCheck

/-- The parameters of a callable; none if it is not known. -/
def SymbolTable.parametersOf (s : SymbolTable) (key : CallableKey) : List Parameter :=
  ((s.callable? key).map Callable.parameters).getD []

namespace Session

/-- The callable is known and not one of the language itself. -/
def Knows (s : Session) (key : CallableKey) : Prop :=
  ∃ c, s.symbols.callable? key = some c ∧ c.isInternal = false

/-- No callee is on trial twice, and all are known and not of the language itself. -/
structure TrialsSound (s : Session) : Prop where
  nodup : (s.trials.map Trial.callee).Nodup
  known : ∀ trial ∈ s.trials, s.Knows trial.callee

/-- What was collected is kept with the trials in progress, and in the table for all callables that are
neither on trial nor in the `hole`. -/
structure Faithful (collected : SymbolTable) (hole : CallableKey → Prop) (s : Session) : Prop where
  sound : s.TrialsSound
  kept : ∀ trial ∈ s.trials, trial.parameters = collected.parametersOf trial.callee
  live : ∀ key, ¬hole key → s.isOnTrial key = false →
    s.symbols.parametersOf key = collected.parametersOf key
  known : ∀ key, hole key → s.Knows key

lemma isOnTrial_eq_false_iff {s : Session} {key : CallableKey} :
    s.isOnTrial key = false ↔ key ∉ s.trials.map Trial.callee := by
  simp [isOnTrial]

lemma Knows.of_sameCores {s t : Session} {key : CallableKey} (h : s.Knows key)
    (hcores : s.symbols.SameCores t.symbols) : t.Knows key := by
  obtain ⟨c, hc, hinternal⟩ := h
  obtain ⟨d, hd, hdc⟩ := hcores.exists_callable hc
  have hsame : d.core.isInternal = c.core.isInternal := by rw [hdc]
  exact ⟨d, hd, hsame.trans hinternal⟩

lemma TrialsSound.of_sameCores {s t : Session} (h : s.TrialsSound) (htrials : t.trials = s.trials)
    (hcores : s.symbols.SameCores t.symbols) : t.TrialsSound := by
  constructor
  · rw [htrials]
    exact h.nodup
  · intro trial htrial
    rw [htrials] at htrial
    exact (h.known trial htrial).of_sameCores hcores

namespace Faithful

variable {collected : SymbolTable} {hole : CallableKey → Prop} {s t : Session}

lemma declaredParameters_eq (h : s.Faithful collected hole) {key : CallableKey} (hkey : ¬hole key) :
    s.declaredParameters key = collected.parametersOf key := by
  rw [declaredParameters]
  split
  · rename_i trial htrial
    have hcallee : trial.callee = key := by simpa using List.find?_some htrial
    rw [← hcallee]
    exact h.kept trial (List.mem_of_find?_eq_some htrial)
  · rename_i hnone
    apply h.live key hkey
    simpa [isOnTrial] using hnone

lemma of_sameBindings (h : s.Faithful collected hole) (hsame : s.SameBindings t)
    (hcores : s.symbols.SameCores t.symbols) : t.Faithful collected hole where
  sound := h.sound.of_sameCores hsame.trials hcores
  kept := by
    rw [hsame.trials]
    exact h.kept
  live key hkey htrial := by
    rw [isOnTrial, hsame.trials] at htrial
    rw [← h.live key hkey htrial, SymbolTable.parametersOf, SymbolTable.parametersOf,
      hsame.parameters]
  known key hkey := (h.known key hkey).of_sameCores hcores

lemma open_hole (h : s.Faithful collected fun _ => False) {callee : CallableKey}
    (hknown : s.Knows callee) : s.Faithful collected (· = callee) where
  sound := h.sound
  kept := h.kept
  live key _ := h.live key id
  known key hkey := by
    rw [hkey]
    exact hknown

lemma rebind {callee : CallableKey} (h : s.Faithful collected (· = callee))
    (parameters : List Parameter) (scope : Scope) :
    (s.apply (.edit (.rebind callee parameters scope))).Faithful collected (· = callee) where
  sound := h.sound.of_sameCores rfl (s.sameCores_apply _)
  kept := h.kept
  live key hkey htrial := by
    rw [← h.live key hkey htrial, SymbolTable.parametersOf, SymbolTable.parametersOf, apply,
      SymbolTable.callable?_rebind_of_ne _ hkey]
  known key hkey := (h.known key hkey).of_sameCores (s.sameCores_apply _)

/-- The callee in the hole gets its parameters back. -/
lemma close_hole {callee : CallableKey} (h : s.Faithful collected (· = callee))
    {parameters : List Parameter} (scope : Scope)
    (hparameters : s.isOnTrial callee = false → parameters = collected.parametersOf callee) :
    (s.apply (.edit (.rebind callee parameters scope))).Faithful collected fun _ => False where
  sound := (h.rebind parameters scope).sound
  kept := h.kept
  live key _ htrial := by
    by_cases hkey : key = callee
    · obtain ⟨c, hc, -⟩ := h.known callee rfl
      have htrial : s.isOnTrial callee = false := hkey ▸ htrial
      rw [hkey, ← hparameters htrial, SymbolTable.parametersOf, apply,
        SymbolTable.callable?_rebind_self, hc]
      rfl
    · exact (h.rebind parameters scope).live key hkey htrial
  known _ hkey := hkey.elim

lemma capture (h : s.Faithful collected hole) (key : CallableKey) (name : String) (site : Site)
    (types : TypeSet) : (s.apply (.edit (.capture key name site types))).Faithful collected hole where
  sound := h.sound.of_sameCores rfl (s.sameCores_apply _)
  kept := h.kept
  live other hother htrial := by
    rw [← h.live other hother htrial, SymbolTable.parametersOf, SymbolTable.parametersOf, apply,
      SymbolTable.callable?_edit, Option.map_map]
    congr 2
    funext c
    dsimp only [Function.comp, Edit.onCallable]
    split <;> rfl
  known other hother := (h.known other hother).of_sameCores (s.sameCores_apply _)

/-- The callee in the hole goes on trial. -/
lemma beginTrial {callee : CallableKey} (h : s.Faithful collected (· = callee))
    (hfree : s.isOnTrial callee = false) {declared : List Parameter}
    (hdeclared : declared = collected.parametersOf callee) :
    (s.apply (.beginTrial ⟨callee, declared⟩)).Faithful collected fun _ => False where
  sound := by
    constructor
    · exact List.nodup_cons.mpr ⟨isOnTrial_eq_false_iff.mp hfree, h.sound.nodup⟩
    · intro trial htrial
      rcases List.mem_cons.mp htrial with rfl | htrial
      · exact h.known callee rfl
      · exact h.sound.known trial htrial
  kept trial htrial := by
    rcases List.mem_cons.mp htrial with rfl | htrial
    · exact hdeclared
    · exact h.kept trial htrial
  live key _ htrial := by
    rw [isOnTrial_eq_false_iff, apply, List.map_cons, List.mem_cons, not_or] at htrial
    exact h.live key htrial.1 (isOnTrial_eq_false_iff.mpr htrial.2)
  known _ hkey := hkey.elim

/-- The latest trial ends, and its callee is in the hole. -/
lemma endTrial (h : s.Faithful collected fun _ => False) {trial : Trial} {trials : List Trial}
    (htrials : s.trials = trial :: trials) :
    (s.apply .endTrial).Faithful collected (· = trial.callee) where
  sound := by
    have hnodup := h.sound.nodup
    rw [htrials] at hnodup
    constructor
    · rw [apply, htrials]
      exact (List.nodup_cons.mp hnodup).2
    · intro other hother
      exact h.sound.known other (List.mem_of_mem_tail hother)
  kept other hother := h.kept other (List.mem_of_mem_tail hother)
  live key hkey htrial := by
    apply h.live key id
    rw [isOnTrial_eq_false_iff, apply, htrials] at htrial
    rw [isOnTrial_eq_false_iff, htrials, List.map_cons, List.mem_cons, not_or]
    exact ⟨hkey, htrial⟩
  known key hkey := by
    rw [hkey]
    apply h.sound.known
    rw [htrials]
    exact List.mem_cons_self ..

end Faithful

end Session

namespace Analysis

variable {collected : SymbolTable} {hole : CallableKey → Prop} {setup : Setup} {enter : Enter}
  {α β : Type}

/-- All that is asked for in the run is answered with what was collected, trials are sound throughout,
and at the end the state is still faithful, with the same trials in progress. -/
structure HonestRun (collected : SymbolTable) (hole : CallableKey → Prop) (s : Session)
    (m : Analysis α) : Prop where
  answers : ∀ q ∈ m.answers s, q.2 = collected.parametersOf q.1
  moments : ∀ t ∈ m.moments s, t.TrialsSound
  final : ∀ a t, m.run s = .ok (a, t) → t.Faithful collected hole ∧ t.trials = s.trials

/-- The run is honest if it starts in a faithful state. -/
def Honest (collected : SymbolTable) (hole : CallableKey → Prop) {α : Type} (s : Session)
    (m : Analysis α) : Prop :=
  s.Faithful collected hole → HonestRun collected hole s m

lemma honest_pure (s : Session) (a : α) : Honest collected hole s (pure a : Analysis α) := by
  intro hs
  refine ⟨nofun, ?_, ?_⟩
  · intro t ht
    rw [List.mem_singleton.mp ht]
    exact hs.sound
  · intro b t hrun
    cases hrun
    exact ⟨hs, rfl⟩

lemma honest_bind {m : Analysis α} {f : α → Analysis β} {s : Session}
    (hm : Honest collected hole s m)
    (hf : ∀ a t, m.run s = .ok (a, t) → Honest collected hole t (f a)) :
    Honest collected hole s (m >>= f) := by
  intro hs
  have hfirst := hm hs
  have hrest : ∀ a t, m.run s = .ok (a, t) → HonestRun collected hole t (f a) :=
    fun a t hrun => hf a t hrun (hfirst.final a t hrun).1
  constructor
  · intro q hq
    rcases mem_answers_bind hq with hq | ⟨a, t, hrun, hq⟩
    · exact hfirst.answers q hq
    · exact (hrest a t hrun).answers q hq
  · intro u hu
    rcases mem_moments_bind hu with hu | ⟨a, t, hrun, hu⟩
    · exact hfirst.moments u hu
    · exact (hrest a t hrun).moments u hu
  · intro b u hrun
    obtain ⟨a, t, ha, hb⟩ := run_bind_eq_ok hrun
    obtain ⟨hu, htrials⟩ := (hrest a t ha).final b u hb
    exact ⟨hu, htrials.trans (hfirst.final a t ha).2⟩

lemma sequential_honest : Sequential (Honest collected hole) where
  pure := honest_pure
  look h hs := ⟨(h hs).answers, (h hs).moments, (h hs).final⟩
  bind := honest_bind

lemma compositional_honest : Compositional (Honest collected fun _ => False) := by
  apply CompositionalOver.of_plain_bind
  · intro α m s hm hs
    have hfaithful : ∀ t ∈ m.moments s, t.Faithful collected fun _ => False :=
      fun t ht => hs.of_sameBindings (hm.sameBindings ht) (sameCores_of_mem_moments ht)
    constructor
    · intro q hq
      obtain ⟨t, ht, hanswer⟩ := exists_mem_moments_of_mem_answers hq
      rw [hanswer]
      exact (hfaithful t ht).declaredParameters_eq id
    · exact fun t ht => (hfaithful t ht).sound
    · intro a t hrun
      have ht := mem_moments_of_run hrun
      exact ⟨hfaithful t ht, (hm.sameBindings ht).trials⟩
  · exact honest_bind

lemma honest_fault (s : Session) (f : Fault) : Honest collected hole s (fault f : Analysis α) := by
  intro hs
  refine ⟨nofun, ?_, nofun⟩
  intro t ht
  rw [List.mem_singleton.mp ht]
  exact hs.sound

lemma honest_onTrial {s : Session} {callee : CallableKey} {declared : List Parameter} {m : Analysis α}
    (hfree : s.isOnTrial callee = false) (hdeclared : declared = collected.parametersOf callee)
    (hm : ∀ s, Honest collected (fun _ => False) s m) :
    Honest collected (· = callee) s (onTrial ⟨callee, declared⟩ m) := by
  intro hs
  rw [onTrial_eq]
  have hmiddle := hm _ (hs.beginTrial hfree hdeclared)
  have hend : ∀ a t, m.run (s.apply (.beginTrial ⟨callee, declared⟩)) = .ok (a, t) →
      (t.apply .endTrial).Faithful collected (· = callee) ∧ (t.apply .endTrial).trials = s.trials := by
    intro a t hrun
    obtain ⟨ht, htrials⟩ := hmiddle.final a t hrun
    refine ⟨ht.endTrial htrials, ?_⟩
    rw [Session.apply, htrials]
    rfl
  constructor
  · intro q hq
    rcases mem_answers_bind hq with hq | ⟨a, t, hrun, hq⟩
    · exact hmiddle.answers q hq
    · cases hq
  · intro u hu
    rcases List.mem_cons.mp hu with rfl | hu
    · exact hs.sound
    · rcases mem_moments_bind hu with hu | ⟨a, t, hrun, hu⟩
      · exact hmiddle.moments u hu
      · rcases List.mem_cons.mp hu with rfl | hu
        · exact (hmiddle.final a u hrun).1.sound
        · rw [List.mem_singleton.mp hu]
          exact (hend a t hrun).1.sound
  · intro b u hrun
    obtain ⟨a, t, ha, hb⟩ := run_bind_eq_ok hrun
    cases hb
    exact hend _ t ha

lemma honest_perform {s : Session} {c : Change} (htrials : (s.apply c).trials = s.trials)
    (h : s.Faithful collected hole → (s.apply c).Faithful collected hole) :
    Honest collected hole s (perform c) := by
  intro hs
  constructor
  · intro q hq
    cases hq
  · intro t ht
    rcases List.mem_cons.mp ht with rfl | ht
    · exact hs.sound
    · rw [List.mem_singleton.mp ht]
      exact (h hs).sound
  · intro a t hrun
    cases hrun
    exact ⟨h hs, htrials⟩

lemma honest_speculate {callee : CallableKey} {declared : List Parameter}
    (hdeclared : declared = collected.parametersOf callee)
    (henter : ∀ s context, Honest collected (fun _ => False) s (enter callee context))
    (s : Session) (context : Context) (arguments : List Node) (types : List TypeSet) :
    Honest collected (· = callee) s (speculate enter context callee arguments declared types) := by
  apply sequential_honest.speculate
  · intro s parameters scope
    exact honest_perform rfl fun hs => hs.rebind parameters scope
  · intro s hfree
    exact honest_onTrial hfree hdeclared fun s => henter s context

lemma honest_tryOut {callee : CallableKey} {declared : List Parameter}
    (hdeclared : declared = collected.parametersOf callee)
    (henter : ∀ s context, Honest collected (fun _ => False) s (enter callee context))
    (s : Session) (context : Context) (arguments : List Node) (types : List TypeSet) :
    Honest collected (fun _ => False) s (tryOut enter context callee arguments declared types) := by
  unfold tryOut
  apply sequential_honest.symbols
  split
  · exact honest_pure s _
  · rename_i before hbefore
    split
    · exact honest_pure s _
    · rename_i hinternal
      intro hs
      have hknown : s.Knows callee := ⟨before, hbefore, by simpa using hinternal⟩
      have hspeculate := honest_speculate hdeclared henter s context arguments types (hs.open_hole hknown)
      have hback : ∀ results t,
          (speculate enter context callee arguments declared types).run s = .ok (results, t) →
          (t.apply (.edit (.rebind callee before.parameters before.scope))).Faithful collected
            fun _ => False := by
        intro results t hrun
        obtain ⟨ht, htrials⟩ := hspeculate.final results t hrun
        apply ht.close_hole
        intro hfree
        rw [Session.isOnTrial, htrials] at hfree
        rw [← hs.live callee id hfree, SymbolTable.parametersOf, hbefore]
        rfl
      constructor
      · intro q hq
        rcases mem_answers_bind hq with hq | ⟨results, t, hrun, hq⟩
        · exact hspeculate.answers q hq
        · cases hq
      · intro u hu
        rcases mem_moments_bind hu with hu | ⟨results, t, hrun, hu⟩
        · exact hspeculate.moments u hu
        · rcases List.mem_cons.mp hu with rfl | hu
          · exact (hspeculate.final results u hrun).1.sound
          · rw [List.mem_singleton.mp hu]
            exact (hback results t hrun).sound
      · intro after u hrun
        obtain ⟨results, t, ht, hu⟩ := run_bind_eq_ok hrun
        cases hu
        exact ⟨hback results t ht, (hspeculate.final results t ht).2⟩

lemma honest_call
    (henter : ∀ s key context, Honest collected (fun _ => False) s (enter key context))
    (s : Session) (context : Context) (callee : CallableKey) (arguments : List Node) :
    Honest collected (fun _ => False) s (call setup enter context callee arguments) := by
  apply compositional_honest.call
  intro s context types hs
  have hdeclared : s.declaredParameters callee = collected.parametersOf callee :=
    hs.declaredParameters_eq id
  exact honest_tryOut hdeclared (fun s context => henter s callee context) s context arguments types hs

lemma supports_honest (file : String) (visit : Visit)
    (henter : ∀ s key context, Honest collected (fun _ => False) s (enter key context)) :
    Supports (Honest collected fun _ => False) enter file visit where
  assign target _ s context type := by
    apply compositional_honest.assign
    intro f _ α s
    exact honest_fault s f
  capture decl _ s context _ := by
    apply compositional_honest.forM
    intro s captured _
    exact honest_perform rfl fun hs => hs.capture _ _ _ _
  enter key _ s context _ := henter s key context

lemma honest_walk (henter : ∀ s key context, Honest collected (fun _ => False) s (enter key context))
    (s : Session) (context : Context) (parent : Option Node) (node : Node) :
    Honest collected (fun _ => False) s (walk setup enter context parent node) :=
  compositional_honest.walk (honest_call henter) (fun visit _ => supports_honest _ visit henter) s
    context parent ⟨rfl, rfl⟩

lemma honest_enterBody (fuel : Nat) (s : Session) (key : CallableKey) (context : Context) :
    Honest collected (fun _ => False) s (enterBody setup fuel key context) := by
  induction fuel generalizing s key context with
  | zero => exact honest_fault s _
  | succ fuel ih =>
    apply compositional_honest.enterBody
    intro c body _ _
    exact honest_walk ih _ _ _ _

lemma honest_walkUnits (units : List SourceUnit) (s : Session) :
    Honest collected (fun _ => False) s (walkUnits setup units) := by
  apply compositional_honest.walkUnits
  intro unit _ s
  exact honest_walk (honest_enterBody _) s _ _ _

/-! ### The trials in progress -/

/-- The trials in progress are the same after the run. -/
def KeepsTrials {α : Type} (s : Session) (m : Analysis α) : Prop :=
  ∀ a t, m.run s = .ok (a, t) → t.trials = s.trials

lemma compositional_keepsTrials : Compositional KeepsTrials := by
  apply CompositionalOver.of_plain_bind
  · intro α m s hm a t hrun
    exact (hm.sameBindings (mem_moments_of_run hrun)).trials
  · intro α β m f s hm hf b u hrun
    obtain ⟨a, t, ha, hb⟩ := run_bind_eq_ok hrun
    exact (hf a t ha b u hb).trans (hm a t ha)

lemma keepsTrials_edit (s : Session) (e : Edit) : KeepsTrials s (edit e) := by
  intro a t hrun
  cases hrun
  rfl

lemma keepsTrials_onTrial {m : Analysis α} (hm : ∀ s, KeepsTrials s m) (s : Session) (trial : Trial) :
    KeepsTrials s (onTrial trial m) := by
  intro a t hrun
  rw [onTrial_eq] at hrun
  obtain ⟨b, u, hb, ht⟩ := run_bind_eq_ok hrun
  have htrials : u.trials = trial :: s.trials := hm _ b u hb
  cases ht
  rw [Session.apply, htrials]
  rfl

lemma keepsTrials_call (henter : ∀ s key context, KeepsTrials s (enter key context)) (s : Session)
    (context : Context) (callee : CallableKey) (arguments : List Node) :
    KeepsTrials s (call setup enter context callee arguments) := by
  apply compositional_keepsTrials.call
  intro s context types
  apply compositional_keepsTrials.tryOut
  · exact fun s _ _ => keepsTrials_edit s _
  · exact fun s _ => keepsTrials_onTrial (fun s => henter s callee context) s _

lemma keepsTrials_assign (s : Session) (context : Context) (target : Node) (type : TypeSet) :
    KeepsTrials s (assign context target type) :=
  compositional_keepsTrials.assign (fun _ _ _ _ => nofun) s context

lemma keepsTrials_check (henter : ∀ s key context, KeepsTrials s (enter key context)) (s : Session)
    (context : Context) (parent : Option Node) (node : Node) :
    KeepsTrials s (check setup enter context parent node) := by
  apply compositional_keepsTrials.check (keepsTrials_call henter)
  exact fun target _ s context => keepsTrials_assign s context target

lemma keepsTrials_walk (henter : ∀ s key context, KeepsTrials s (enter key context)) (s : Session)
    (context : Context) (parent : Option Node) (node : Node) :
    KeepsTrials s (walk setup enter context parent node) := by
  apply compositional_keepsTrials.walk (keepsTrials_call henter) _ s context parent ⟨rfl, rfl⟩
  intro visit _
  refine ⟨fun target _ s context => keepsTrials_assign s context target, ?_, ?_⟩
  · intro decl _ s context _
    exact compositional_keepsTrials.forM (fun s _ _ => keepsTrials_edit s _) s
  · exact fun key _ s context _ => henter s key context

lemma keepsTrials_enterBody (fuel : Nat) (s : Session) (key : CallableKey) (context : Context) :
    KeepsTrials s (enterBody setup fuel key context) := by
  induction fuel generalizing s key context with
  | zero => exact nofun
  | succ fuel ih =>
    apply compositional_keepsTrials.enterBody
    intro c body _ _
    exact keepsTrials_walk ih _ _ _ _

/-- In a run over units, whoever asks for the declared parameters of a callable is told those that the
table held at the start. No callee is ever on trial twice, and all are known and not of the language
itself. Whatever the state, a walk, a check and a call leave the trials in progress as they were. -/
theorem asked_parameters_are_collected (setup : Setup) (units : List SourceUnit)
    (symbols : SymbolTable) :
    (∀ q ∈ (walkUnits setup units).answers { symbols }, q.2 = symbols.parametersOf q.1) ∧
    (∀ s ∈ (walkUnits setup units).moments { symbols }, s.TrialsSound) ∧
    ∀ (s t : Session) (fuel : Nat) (context after : Context),
      (∀ parent node, (walk setup (enterBody setup fuel) context parent node).run s = .ok (after, t) →
        t.trials = s.trials) ∧
      (∀ parent node, (check setup (enterBody setup fuel) context parent node).run s = .ok (after, t) →
        t.trials = s.trials) ∧
      ∀ callee arguments,
        (call setup (enterBody setup fuel) context callee arguments).run s = .ok (after, t) →
        t.trials = s.trials := by
  have hstart : Session.Faithful symbols (fun _ => False) { symbols } :=
    ⟨⟨List.nodup_nil, nofun⟩, nofun, fun _ _ _ => rfl, nofun⟩
  have hrun : HonestRun symbols _ { symbols } (walkUnits setup units) := honest_walkUnits units _ hstart
  refine ⟨hrun.answers, hrun.moments, fun s t fuel context after => ⟨?_, ?_, ?_⟩⟩
  · intro parent node
    exact keepsTrials_walk (keepsTrials_enterBody fuel) s context parent node after t
  · intro parent node
    exact keepsTrials_check (keepsTrials_enterBody fuel) s context parent node after t
  · intro callee arguments
    exact keepsTrials_call (keepsTrials_enterBody fuel) s context callee arguments after t

/-- A function that calls itself is asked about while it is on trial with other parameters. -/
theorem asked_parameters_recursion :
    let x : Node := ⟨1, .var (.literal "x")⟩
    let call (line : Line) (argument : Node) : Node := ⟨line, .call ⟨line, .identifier "f"⟩ [argument]⟩
    let units : List SourceUnit := [⟨"a.php", ⟨1, .statementList [
      ⟨1, .functionDecl ⟨"f", [⟨"x", none, false, false, none⟩], none, call 1 x⟩⟩,
      call 2 ⟨2, .literal (.int 1)⟩]⟩, none⟩]
    ∃ symbols, SymbolTable.builtin.collectUnits units = .ok symbols ∧
      (∃ s ∈ (walkUnits {} units).moments { symbols }, s.isOnTrial (.ofFunction "f") = true ∧
        s.symbols.parametersOf (.ofFunction "f") ≠ symbols.parametersOf (.ofFunction "f")) ∧
      ∀ q ∈ (walkUnits {} units).answers { symbols }, q.2 = symbols.parametersOf q.1 := by
  intro x call units
  apply exists_ok_of_any (fun symbols => decide (
    ∃ s ∈ (walkUnits {} units).moments { symbols }, s.isOnTrial (.ofFunction "f") = true ∧
      s.symbols.parametersOf (.ofFunction "f") ≠ symbols.parametersOf (.ofFunction "f")))
  · decide +kernel
  · intro symbols _ hmoment
    exact ⟨of_decide_eq_true hmoment, (asked_parameters_are_collected {} units symbols).1⟩

end Analysis

end PhpCheck
