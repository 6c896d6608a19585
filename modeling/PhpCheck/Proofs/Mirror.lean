import PhpCheck.Analysis.Run
import PhpCheck.Proofs.Actions

/-!
# Two runs in step

Grouping risks are recorded into the log that everything else is recorded into, so a run that looks for
them and one that does not pass through different states. `Mirrors` relates two actions that do the same
but for the recording of such risks, and may not look at the risks recorded so far. Their runs agree on
all but the risks.
-/

namespace PhpCheck

/-! ### States without their risks -/

/-- The log without the grouping risks in it. -/
def DiagnosticLog.withoutRisks (log : DiagnosticLog) : DiagnosticLog where
  entries := log.entries.filter fun d => d.kind != .compatibilityRisk
  seen := log.seen.filter fun d => d.kind != .compatibilityRisk
  mem_seen d := by rw [List.mem_filter, Array.mem_filter, log.mem_seen]

namespace DiagnosticLog

lemma withoutRisks_push_of_risk (log : DiagnosticLog) {d : Diagnostic}
    (h : d.kind = .compatibilityRisk) : (log.push d).withoutRisks = log.withoutRisks := by
  have hseen : (log.seen.insert d).filter (fun d => d.kind != .compatibilityRisk) =
      log.seen.filter fun d => d.kind != .compatibilityRisk := by
    rw [List.insert]
    split <;> simp [h]
  simp [withoutRisks, push, h, hseen]

lemma withoutRisks_push (log : DiagnosticLog) {d : Diagnostic} (h : d.kind ≠ .compatibilityRisk) :
    (log.push d).withoutRisks = log.withoutRisks.push d := by
  have hseen : (log.seen.insert d).filter (fun d => d.kind != .compatibilityRisk) =
      (log.seen.filter fun d => d.kind != .compatibilityRisk).insert d := by
    by_cases hmem : d ∈ log.seen
    · rw [List.insert_of_mem hmem, List.insert_of_mem (by simp [hmem, h])]
    · rw [List.insert_of_not_mem hmem, List.insert_of_not_mem (by simp [hmem]),
        List.filter_cons_of_pos (by simpa using h)]
  simp [withoutRisks, push, h, hseen]

lemma withoutRisks_pushOnce_of_risk (log : DiagnosticLog) {d : Diagnostic}
    (h : d.kind = .compatibilityRisk) : (log.pushOnce d).withoutRisks = log.withoutRisks := by
  unfold pushOnce
  split
  · rfl
  · exact log.withoutRisks_push_of_risk h

/-- Risks do not keep anything else from being recorded. -/
lemma withoutRisks_pushOnce (log : DiagnosticLog) {d : Diagnostic} (h : d.kind ≠ .compatibilityRisk) :
    (log.pushOnce d).withoutRisks = log.withoutRisks.pushOnce d := by
  have hmem : log.withoutRisks.seen.contains d = log.seen.contains d := by
    rw [Bool.eq_iff_iff]
    simp [withoutRisks, h]
  unfold pushOnce
  rw [hmem]
  split
  · rfl
  · exact log.withoutRisks_push h

end DiagnosticLog

/-- The state without the grouping risks in its log. -/
def Session.withoutRisks (session : Session) : Session :=
  { session with log := session.log.withoutRisks }

/-- The finding is a grouping risk. -/
def Change.IsRisk : Change → Prop
  | .record _ _ finding => finding.kind = .compatibilityRisk
  | _ => False

namespace Session

lemma withoutRisks_apply_of_isRisk (s : Session) {c : Change} (h : c.IsRisk) :
    (s.apply c).withoutRisks = s.withoutRisks := by
  cases c with
  | record file line finding =>
    have hkind : (finding.diagnosticAt file line).kind = .compatibilityRisk := h
    simp only [apply, withoutRisks]
    split
    · rw [s.log.withoutRisks_pushOnce_of_risk hkind]
    · rw [s.log.withoutRisks_push_of_risk hkind]
  | edit | arrive | beginTrial | endTrial | beginWalk | endWalk => cases h

lemma withoutRisks_apply (s : Session) {c : Change} (h : ¬ c.IsRisk) :
    (s.apply c).withoutRisks = s.withoutRisks.apply c := by
  cases c with
  | record file line finding =>
    have hkind : (finding.diagnosticAt file line).kind ≠ .compatibilityRisk := h
    obtain ⟨symbols, log, trials, walked, revisiting⟩ := s
    cases revisiting with
    | true => exact congrArg (Session.mk symbols · trials walked true) (log.withoutRisks_pushOnce hkind)
    | false => exact congrArg (Session.mk symbols · trials walked false) (log.withoutRisks_push hkind)
  | edit | arrive | beginTrial | endTrial | beginWalk | endWalk => rfl

/-- States that agree but for risks still do after the same change. -/
lemma withoutRisks_apply_congr {s t : Session} (h : s.withoutRisks = t.withoutRisks) (c : Change) :
    (s.apply c).withoutRisks = (t.apply c).withoutRisks := by
  by_cases hc : c.IsRisk
  · rw [s.withoutRisks_apply_of_isRisk hc, t.withoutRisks_apply_of_isRisk hc, h]
  · rw [s.withoutRisks_apply hc, t.withoutRisks_apply hc, h]

/-- What can be told without the risks is told alike. -/
lemma eq_of_withoutRisks_eq {s t : Session} (h : s.withoutRisks = t.withoutRisks) {α : Type}
    (f : Session → α) (hf : ∀ s, f s.withoutRisks = f s) : f s = f t := by
  rw [← hf s, h, hf t]

end Session

namespace Analysis

variable {α β : Type}

/-- The two actions do the same, but for the risks that either may record. What is done next may depend
on the state, but not on the risks in its log. -/
inductive Mirrors : Analysis α → Analysis α → Prop
  | done (result : α) : Mirrors (done result) (done result)
  | fault (f : Fault) : Mirrors (fault f) (fault f)
  | look {rest rest' : Session → Analysis α}
    (h : ∀ s t, s.withoutRisks = t.withoutRisks → Mirrors (rest s) (rest' t)) :
    Mirrors (look rest) (look rest')
  | change (c : Change) {rest rest' : Unit → Analysis α} (h : Mirrors (rest ()) (rest' ())) :
    Mirrors (change c rest) (change c rest')
  | ask (callee : CallableKey) {rest rest' : List Parameter → Analysis α}
    (h : ∀ parameters, Mirrors (rest parameters) (rest' parameters)) :
    Mirrors (ask callee rest) (ask callee rest')
  | left {c : Change} (hc : c.IsRisk) {rest : Unit → Analysis α} {m : Analysis α}
    (h : Mirrors (rest ()) m) : Mirrors (change c rest) m
  | right {c : Change} (hc : c.IsRisk) {m : Analysis α} {rest : Unit → Analysis α}
    (h : Mirrors m (rest ())) : Mirrors m (change c rest)

namespace Mirrors

/-- The runs end alike: with the same fault, or with the same result and in states that agree but for
the risks. -/
lemma run {m n : Analysis α} (h : Mirrors m n) {s t : Session} (hst : s.withoutRisks = t.withoutRisks) :
    (m.run s).map (Prod.map id Session.withoutRisks) =
      (n.run t).map (Prod.map id Session.withoutRisks) := by
  induction h generalizing s t with
  | done result => simp [Analysis.run, Except.map, hst]
  | fault f => rfl
  | look _ ih => exact ih s t hst hst
  | change c _ ih => exact ih (Session.withoutRisks_apply_congr hst c)
  | ask callee _ ih =>
    have hparameters : s.declaredParameters callee = t.declaredParameters callee :=
      Session.eq_of_withoutRisks_eq hst (Session.declaredParameters · callee) fun _ => rfl
    simp only [Analysis.run, hparameters]
    exact ih _ hst
  | left hc _ ih => exact ih ((s.withoutRisks_apply_of_isRisk hc).trans hst)
  | right hc _ ih => exact ih (hst.trans (t.withoutRisks_apply_of_isRisk hc).symm)

lemma run_eq_ok {m n : Analysis α} (h : Mirrors m n) {s t s' : Session} {a : α}
    (hst : s.withoutRisks = t.withoutRisks) (hrun : m.run s = .ok (a, s')) :
    ∃ t', n.run t = .ok (a, t') ∧ s'.withoutRisks = t'.withoutRisks := by
  have hruns := h.run hst
  rw [hrun] at hruns
  cases hother : n.run t with
  | error f =>
    rw [hother] at hruns
    cases hruns
  | ok result =>
    obtain ⟨b, t'⟩ := result
    rw [hother] at hruns
    simp only [Except.map, Prod.map, Except.ok.injEq, Prod.mk.injEq, id_eq] at hruns
    obtain ⟨rfl, hs⟩ := hruns
    exact ⟨t', rfl, hs⟩

/-! ### Actions one after another -/

lemma bind {m n : Analysis α} {f g : α → Analysis β} (h : Mirrors m n)
    (hfg : ∀ a, Mirrors (f a) (g a)) : Mirrors (m >>= f) (n >>= g) := by
  induction h with
  | done result => exact hfg result
  | fault f => exact .fault f
  | look _ ih => exact .look ih
  | change c _ ih => exact .change c ih
  | ask callee _ ih => exact .ask callee ih
  | left hc _ ih => exact .left hc ih
  | right hc _ ih => exact .right hc ih

lemma bind_pure {m n : Analysis α} (h : Mirrors m n) (f : α → β) :
    Mirrors (m >>= fun a => Pure.pure (f a)) (n >>= fun a => Pure.pure (f a)) :=
  h.bind fun a => .done (f a)

lemma discard {m n : Analysis α} (h : Mirrors m n) : Mirrors (Functor.discard m) (Functor.discard n) :=
  h.bind_pure _

lemma ite {c : Prop} [Decidable c] {m n m' n' : Analysis α} (hm : Mirrors m m') (hn : Mirrors n n') :
    Mirrors (if c then m else n) (if c then m' else n') := by
  split
  · exact hm
  · exact hn

lemma forM {f g : α → Analysis PUnit} {l : List α} (h : ∀ x ∈ l, Mirrors (f x) (g x)) :
    Mirrors (l.forM f) (l.forM g) := by
  induction l with
  | nil => exact .done _
  | cons x l ih =>
    have hx := h x (List.mem_cons_self ..)
    exact hx.bind fun _ => ih fun y hy => h y (List.mem_cons_of_mem _ hy)

lemma foldlM {f g : β → α → Analysis β} {l : List α} (h : ∀ b, ∀ x ∈ l, Mirrors (f b x) (g b x))
    (b : β) : Mirrors (l.foldlM f b) (l.foldlM g b) := by
  induction l generalizing b with
  | nil => exact .done b
  | cons x l ih =>
    rw [List.foldlM_cons, List.foldlM_cons]
    have hx := h b x (List.mem_cons_self ..)
    exact hx.bind fun c => ih (fun d y hy => h d y (List.mem_cons_of_mem _ hy)) c

lemma mapM {f g : α → Analysis β} {l : List α} (h : ∀ x ∈ l, Mirrors (f x) (g x)) :
    Mirrors (l.mapM f) (l.mapM g) := by
  induction l with
  | nil => exact .done _
  | cons x l ih =>
    rw [List.mapM_cons, List.mapM_cons]
    have hx := h x (List.mem_cons_self ..)
    have hrest := ih fun y hy => h y (List.mem_cons_of_mem _ hy)
    exact hx.bind fun b => hrest.bind_pure _

/-! ### What may be looked at -/

lemma symbols {f g : SymbolTable → Analysis α} (h : ∀ table, Mirrors (f table) (g table)) :
    Mirrors (Analysis.symbols >>= f) (Analysis.symbols >>= g) := by
  refine .look fun s t hst => ?_
  have htable : s.symbols = t.symbols := Session.eq_of_withoutRisks_eq hst Session.symbols fun _ => rfl
  dsimp only
  rw [htable]
  exact h t.symbols

lemma isOnTrial (callee : CallableKey) {f g : Bool → Analysis α} (h : ∀ b, Mirrors (f b) (g b)) :
    Mirrors (Analysis.isOnTrial callee >>= f) (Analysis.isOnTrial callee >>= g) := by
  refine .look fun s t hst => ?_
  have htrial : s.isOnTrial callee = t.isOnTrial callee :=
    Session.eq_of_withoutRisks_eq hst (Session.isOnTrial · callee) fun _ => rfl
  dsimp only
  rw [htrial]
  exact h (t.isOnTrial callee)

lemma declaredParameters (callee : CallableKey) {f g : List Parameter → Analysis α}
    (h : ∀ parameters, Mirrors (f parameters) (g parameters)) :
    Mirrors (Analysis.declaredParameters callee >>= f) (Analysis.declaredParameters callee >>= g) :=
  .ask callee h

lemma perform (c : Change) : Mirrors (Analysis.perform c) (Analysis.perform c) := .change c (.done _)

lemma onTrial (trial : Trial) {m n : Analysis α} (h : Mirrors m n) :
    Mirrors (Analysis.onTrial trial m) (Analysis.onTrial trial n) :=
  (perform _).bind fun _ => h.bind fun _ => (perform _).bind_pure _

lemma asWalkOf (key : CallableKey) {m n : Analysis α} (h : Mirrors m n) :
    Mirrors (Analysis.asWalkOf key m) (Analysis.asWalkOf key n) := by
  refine .look fun s t hst => ?_
  have hrevisiting : s.revisiting = t.revisiting :=
    Session.eq_of_withoutRisks_eq hst Session.revisiting fun _ => rfl
  rw [hrevisiting]
  exact (perform _).bind fun _ => h.bind fun _ => (perform _).bind_pure _

end Mirrors

end Analysis

end PhpCheck
