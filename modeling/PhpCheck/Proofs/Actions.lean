import PhpCheck.Analysis.Session
import Mathlib.Tactic.Lemma

/-!
# Actions and the states they pass through

`Analysis.moments` lists the states of a run of an action, and `Analysis.answers` what it is told about
declared parameters. A property of runs that holds of the harmless actions and of an action whenever it
holds of its parts is `Compositional`; such properties are carried from the smallest steps to whole
programs.
-/

namespace PhpCheck

/-- A change that leaves the trials in progress alone, and so the parameters and the scopes of all
callables. -/
def Change.IsPlain : Change → Prop
  | .edit (.capture ..) | .edit (.rebind ..) | .beginTrial _ | .endTrial => False
  | .edit _ | .record .. | .arrive .. | .beginWalk _ | .endWalk _ => True

lemma exists_ok_of_any {ε α : Type} {r : Except ε α} (p : α → Bool) {P : α → Prop}
    (hany : r.toOption.any p = true) (h : ∀ a, r = .ok a → p a = true → P a) :
    ∃ a, r = .ok a ∧ P a := by
  cases r with
  | error e => cases hany
  | ok a => exact ⟨a, rfl, h a rfl hany⟩

namespace Analysis

variable {α β : Type}

/-- The states that an action passes through, the first and the last one included. -/
def moments : Analysis α → Session → List Session
  | done _, session | fault _, session => [session]
  | look rest, session => (rest session).moments session
  | change c rest, session => session :: (rest ()).moments (session.apply c)
  | ask callee rest, session => (rest (session.declaredParameters callee)).moments session

/-- The callables whose declared parameters are asked for, each with the list that is obtained. -/
def answers : Analysis α → Session → List (CallableKey × List Parameter)
  | done _, _ | fault _, _ => []
  | look rest, session => (rest session).answers session
  | change c rest, session => (rest ()).answers (session.apply c)
  | ask callee rest, session =>
    (callee, session.declaredParameters callee) ::
      (rest (session.declaredParameters callee)).answers session

/-- The changes that an action makes, each with the state in which it is made. -/
def steps : Analysis α → Session → List (Session × Change)
  | done _, _ | fault _, _ => []
  | look rest, session => (rest session).steps session
  | change c rest, session => (session, c) :: (rest ()).steps (session.apply c)
  | ask callee rest, session => (rest (session.declaredParameters callee)).steps session

/-- Every result that an action may have satisfies `P`. -/
inductive Results (P : α → Prop) : Analysis α → Prop
  | done {result : α} (h : P result) : Results P (done result)
  | fault (f : Fault) : Results P (fault f)
  | look {rest : Session → Analysis α} (h : ∀ session, Results P (rest session)) :
    Results P (look rest)
  | change (c : Change) {rest : Unit → Analysis α} (h : Results P (rest ())) :
    Results P (change c rest)
  | ask (callee : CallableKey) {rest : List Parameter → Analysis α}
    (h : ∀ parameters, Results P (rest parameters)) : Results P (ask callee rest)

/-- Every change that an action may make satisfies `G`, and every fault that may end it `F`. -/
inductive Only (G : Change → Prop) (F : Fault → Prop) : Analysis α → Prop
  | done (result : α) : Only G F (done result)
  | fault {f : Fault} (h : F f) : Only G F (fault f)
  | look {rest : Session → Analysis α} (h : ∀ session, Only G F (rest session)) :
    Only G F (look rest)
  | change {c : Change} (hc : G c) {rest : Unit → Analysis α} (h : Only G F (rest ())) :
    Only G F (change c rest)
  | ask (callee : CallableKey) {rest : List Parameter → Analysis α}
    (h : ∀ parameters, Only G F (rest parameters)) : Only G F (ask callee rest)

/-! ### Actions one after another -/

lemma bind_done (m : Analysis α) : m.bind done = m := by
  induction m with
  | done result => rfl
  | fault f => rfl
  | look rest ih => simp only [Analysis.bind, ih]
  | change c rest ih => simp only [Analysis.bind, ih]
  | ask callee rest ih => simp only [Analysis.bind, ih]

lemma bind_bind {γ : Type} (m : Analysis α) (f : α → Analysis β) (g : β → Analysis γ) :
    (m.bind f).bind g = m.bind fun a => (f a).bind g := by
  induction m with
  | done result => rfl
  | fault f => rfl
  | look rest ih => simp only [Analysis.bind, ih]
  | change c rest ih => simp only [Analysis.bind, ih]
  | ask callee rest ih => simp only [Analysis.bind, ih]

instance : LawfulMonad Analysis :=
  LawfulMonad.mk' Analysis (fun m => bind_done m) (fun _ _ => rfl) bind_bind

lemma run_bind_of_run {m : Analysis α} {f : α → Analysis β} {s t : Session} {a : α}
    (h : m.run s = .ok (a, t)) : (m >>= f).run s = (f a).run t := by
  induction m generalizing s with
  | done result =>
    cases h
    rfl
  | fault f => cases h
  | look rest ih => exact ih s h
  | change c rest ih => exact ih () h
  | ask callee rest ih => exact ih _ h

lemma run_bind_eq_ok {m : Analysis α} {f : α → Analysis β} {s t : Session} {b : β}
    (h : (m >>= f).run s = .ok (b, t)) :
    ∃ a s', m.run s = .ok (a, s') ∧ (f a).run s' = .ok (b, t) := by
  induction m generalizing s with
  | done result => exact ⟨result, s, rfl, h⟩
  | fault f => cases h
  | look rest ih => exact ih s h
  | change c rest ih => exact ih () h
  | ask callee rest ih => exact ih _ h

lemma run_bind_eq_error {m : Analysis α} {f : α → Analysis β} {s : Session} {e : Fault}
    (h : (m >>= f).run s = .error e) :
    m.run s = .error e ∨ ∃ a s', m.run s = .ok (a, s') ∧ (f a).run s' = .error e := by
  induction m generalizing s with
  | done result => exact .inr ⟨result, s, rfl, h⟩
  | fault f => exact .inl (by cases h; rfl)
  | look rest ih => exact ih s h
  | change c rest ih => exact ih () h
  | ask callee rest ih => exact ih _ h

lemma run_symbols_bind (f : SymbolTable → Analysis α) (s : Session) :
    (symbols >>= f).run s = (f s.symbols).run s := rfl

lemma run_discard (m : Analysis α) (s : Session) :
    (Functor.discard m).run s = (m.run s).map (Prod.map (fun _ => PUnit.unit) id) := by
  induction m generalizing s with
  | done result => rfl
  | fault f => rfl
  | look rest ih => exact ih s s
  | change c rest ih => exact ih () (s.apply c)
  | ask callee rest ih => exact ih _ s

lemma mem_moments_bind {m : Analysis α} {f : α → Analysis β} {s t : Session}
    (h : t ∈ (m >>= f).moments s) :
    t ∈ m.moments s ∨ ∃ a s', m.run s = .ok (a, s') ∧ t ∈ (f a).moments s' := by
  induction m generalizing s with
  | done result => exact .inr ⟨result, s, rfl, h⟩
  | fault f => exact .inl h
  | look rest ih => exact ih s h
  | change c rest ih =>
    rcases List.mem_cons.mp h with rfl | h
    · exact .inl (List.mem_cons_self ..)
    · rcases ih () h with h | h
      · exact .inl (List.mem_cons_of_mem _ h)
      · exact .inr h
  | ask callee rest ih => exact ih _ h

lemma mem_answers_bind {m : Analysis α} {f : α → Analysis β} {s : Session}
    {q : CallableKey × List Parameter} (h : q ∈ (m >>= f).answers s) :
    q ∈ m.answers s ∨ ∃ a s', m.run s = .ok (a, s') ∧ q ∈ (f a).answers s' := by
  induction m generalizing s with
  | done result => exact .inr ⟨result, s, rfl, h⟩
  | fault f => exact .inl h
  | look rest ih => exact ih s h
  | change c rest ih => exact ih () h
  | ask callee rest ih =>
    rcases List.mem_cons.mp h with rfl | h
    · exact .inl (List.mem_cons_self ..)
    · rcases ih _ h with h | h
      · exact .inl (List.mem_cons_of_mem _ h)
      · exact .inr h

lemma steps_bind {m : Analysis α} {f : α → Analysis β} {s t : Session} {a : α}
    (h : m.run s = .ok (a, t)) : (m >>= f).steps s = m.steps s ++ (f a).steps t := by
  induction m generalizing s with
  | done result =>
    cases h
    rfl
  | fault f => cases h
  | look rest ih => exact ih s h
  | change c rest ih => exact congrArg ((s, c) :: ·) (ih () h)
  | ask callee rest ih => exact ih _ h

lemma steps_bind_of_error {m : Analysis α} {f : α → Analysis β} {s : Session} {e : Fault}
    (h : m.run s = .error e) : (m >>= f).steps s = m.steps s := by
  induction m generalizing s with
  | done result => cases h
  | fault f => rfl
  | look rest ih => exact ih s h
  | change c rest ih => exact congrArg ((s, c) :: ·) (ih () h)
  | ask callee rest ih => exact ih _ h

lemma mem_steps_bind {m : Analysis α} {f : α → Analysis β} {s : Session} {step : Session × Change}
    (h : step ∈ (m >>= f).steps s) :
    step ∈ m.steps s ∨ ∃ a s', m.run s = .ok (a, s') ∧ step ∈ (f a).steps s' := by
  cases hrun : m.run s with
  | error e =>
    rw [steps_bind_of_error hrun] at h
    exact .inl h
  | ok r =>
    rw [steps_bind hrun, List.mem_append] at h
    exact h.imp_right fun h => ⟨r.1, r.2, rfl, h⟩

lemma onTrial_eq (trial : Trial) (m : Analysis α) : onTrial trial m =
    change (.beginTrial trial) fun _ => m >>= fun result => change .endTrial fun _ => done result :=
  rfl

/-! ### What an action may result in -/

lemma Results.mono {P R : α → Prop} {m : Analysis α} (h : m.Results P) (hPR : ∀ a, P a → R a) :
    m.Results R := by
  induction h with
  | done h => exact .done (hPR _ h)
  | fault f => exact .fault f
  | look _ ih => exact .look ih
  | change c _ ih => exact .change c ih
  | ask callee _ ih => exact .ask callee ih

lemma results_true (m : Analysis α) : m.Results fun _ => True := by
  induction m with
  | done result => exact .done trivial
  | fault f => exact .fault f
  | look rest ih => exact .look ih
  | change c rest ih => exact .change c (ih ())
  | ask callee rest ih => exact .ask callee ih

lemma Results.bind {P : α → Prop} {R : β → Prop} {m : Analysis α} {f : α → Analysis β}
    (h : m.Results P) (hf : ∀ a, P a → (f a).Results R) : (m >>= f).Results R := by
  induction h with
  | done h => exact hf _ h
  | fault f => exact .fault f
  | look _ ih => exact .look ih
  | change c _ ih => exact .change c ih
  | ask callee _ ih => exact .ask callee ih

lemma results_bind {R : β → Prop} {m : Analysis α} {f : α → Analysis β}
    (hf : ∀ a, (f a).Results R) : (m >>= f).Results R :=
  (results_true m).bind fun a _ => hf a

lemma Results.ite {P : α → Prop} {c : Prop} [Decidable c] {m n : Analysis α} (hm : m.Results P)
    (hn : n.Results P) : (if c then m else n).Results P := by
  split
  · exact hm
  · exact hn

lemma Results.foldlM {P : β → Prop} {f : β → α → Analysis β} {l : List α}
    (hf : ∀ b x, x ∈ l → P b → (f b x).Results P) {b : β} (hb : P b) :
    (l.foldlM f b).Results P := by
  induction l generalizing b with
  | nil => exact .done hb
  | cons x l ih =>
    rw [List.foldlM_cons]
    refine (hf b x (List.mem_cons_self ..) hb).bind fun b' hb' => ?_
    exact ih (fun c y hy => hf c y (List.mem_cons_of_mem _ hy)) hb'

lemma Results.of_run {P : α → Prop} {m : Analysis α} (h : m.Results P) {s t : Session} {a : α}
    (hrun : m.run s = .ok (a, t)) : P a := by
  induction h generalizing s with
  | done h =>
    cases hrun
    exact h
  | fault f => cases hrun
  | look _ ih => exact ih s hrun
  | change c _ ih => exact ih hrun
  | ask callee _ ih => exact ih _ hrun

/-! ### What an action may do -/

lemma only_true (m : Analysis α) : m.Only (fun _ => True) fun _ => True := by
  induction m with
  | done result => exact .done result
  | fault f => exact .fault trivial
  | look rest ih => exact .look ih
  | change c rest ih => exact .change trivial (ih ())
  | ask callee rest ih => exact .ask callee ih

section Only

variable {G : Change → Prop} {F : Fault → Prop}

/-- The second action is only asked about for what the first one may result in. -/
lemma Only.bind_results {P : α → Prop} {m : Analysis α} {f : α → Analysis β} (h : m.Only G F)
    (hP : m.Results P) (hf : ∀ a, P a → (f a).Only G F) : (m >>= f).Only G F := by
  induction h with
  | done result =>
    cases hP with
    | done hP => exact hf result hP
  | fault h => exact .fault h
  | look _ ih =>
    cases hP with
    | look hP => exact .look fun session => ih session (hP session)
  | change hc _ ih =>
    cases hP with
    | change c hP => exact .change hc (ih hP)
  | ask callee _ ih =>
    cases hP with
    | ask callee hP => exact .ask callee fun parameters => ih parameters (hP parameters)

lemma Only.bind {m : Analysis α} {f : α → Analysis β} (h : m.Only G F)
    (hf : ∀ a, (f a).Only G F) : (m >>= f).Only G F :=
  h.bind_results (results_true m) fun a _ => hf a

lemma Only.mono {G' : Change → Prop} {F' : Fault → Prop} {m : Analysis α} (h : m.Only G F)
    (hG : ∀ c, G c → G' c) (hF : ∀ f, F f → F' f) : m.Only G' F' := by
  induction h with
  | done result => exact .done result
  | fault h => exact .fault (hF _ h)
  | look _ ih => exact .look ih
  | change hc _ ih => exact .change (hG _ hc) ih
  | ask callee _ ih => exact .ask callee ih

lemma only_symbols : symbols.Only G F := .look fun session => .done session.symbols

lemma only_declaredParameters (callee : CallableKey) : (declaredParameters callee).Only G F :=
  .ask callee .done

lemma Only.ite {c : Prop} [Decidable c] {m n : Analysis α} (hm : m.Only G F) (hn : n.Only G F) :
    (if c then m else n).Only G F := by
  split
  · exact hm
  · exact hn

lemma Only.discard {m : Analysis α} (h : m.Only G F) : (Functor.discard m).Only G F :=
  h.bind fun _ => .done _

lemma Only.foldlM {f : β → α → Analysis β} (P : β → Prop)
    (hf : ∀ b x, P b → (f b x).Only G F ∧ (f b x).Results P) (l : List α) {b : β} (hb : P b) :
    (l.foldlM f b).Only G F := by
  induction l generalizing b with
  | nil => exact .done b
  | cons x l ih =>
    rw [List.foldlM_cons]
    obtain ⟨hx, hP⟩ := hf b x hb
    exact hx.bind_results hP fun b' hb' => ih hb'

lemma Only.forM {f : α → Analysis PUnit} {l : List α} (hf : ∀ x ∈ l, (f x).Only G F) :
    (l.forM f).Only G F := by
  induction l with
  | nil => exact .done _
  | cons x l ih =>
    refine Only.bind (hf x (List.mem_cons_self ..)) fun _ => ?_
    exact ih fun y hy => hf y (List.mem_cons_of_mem _ hy)

lemma Only.mapM {f : α → Analysis β} {l : List α} (hf : ∀ x ∈ l, (f x).Only G F) :
    (l.mapM f).Only G F := by
  induction l with
  | nil => exact .done _
  | cons x l ih =>
    rw [List.mapM_cons]
    have hrest := ih fun y hy => hf y (List.mem_cons_of_mem _ hy)
    exact Only.bind (hf x (List.mem_cons_self ..)) fun _ => hrest.bind fun _ => .done _

lemma Only.of_mem_steps {m : Analysis α} (hm : m.Only G F) {s : Session} {step : Session × Change}
    (h : step ∈ m.steps s) : G step.2 := by
  induction hm generalizing s with
  | done result => cases h
  | fault _ => cases h
  | look _ ih => exact ih s h
  | change hc _ ih =>
    rcases List.mem_cons.mp h with rfl | h
    · exact hc
    · exact ih h
  | ask callee _ ih => exact ih _ h

lemma Only.fault_of_run {m : Analysis α} (hm : m.Only G F) {s : Session} {f : Fault}
    (h : m.run s = .error f) : F f := by
  induction hm generalizing s with
  | done result => cases h
  | fault hf =>
    cases h
    exact hf
  | look _ ih => exact ih s h
  | change _ _ ih => exact ih h
  | ask callee _ ih => exact ih _ h

end Only

section Related

variable {R : Session → Session → Prop} (hrefl : ∀ s, R s s)
  (htrans : ∀ s t u, R s t → R t u → R s u)

include hrefl htrans

/-- A preorder that every step of a run respects holds between its start and every state that it passes
through. -/
lemma related_of_steps {m : Analysis α} {s t : Session}
    (hsteps : ∀ step ∈ m.steps s, R step.1 (step.1.apply step.2)) (h : t ∈ m.moments s) : R s t := by
  induction m generalizing s with
  | done result =>
    rw [List.mem_singleton.mp h]
    exact hrefl s
  | fault _ =>
    rw [List.mem_singleton.mp h]
    exact hrefl s
  | look rest ih => exact ih s hsteps h
  | change c rest ih =>
    rcases List.mem_cons.mp h with rfl | h
    · exact hrefl t
    · have hfirst := hsteps _ (List.mem_cons_self ..)
      exact htrans _ _ _ hfirst (ih () (fun step hstep => hsteps step (List.mem_cons_of_mem _ hstep)) h)
  | ask callee rest ih => exact ih _ hsteps h

/-- The preorder holds between any two states of the run, one after the other. -/
lemma pairwise_moments_of_steps {m : Analysis α} {s : Session}
    (hsteps : ∀ step ∈ m.steps s, R step.1 (step.1.apply step.2)) : (m.moments s).Pairwise R := by
  induction m generalizing s with
  | done result => exact List.pairwise_singleton ..
  | fault _ => exact List.pairwise_singleton ..
  | look rest ih => exact ih s hsteps
  | change c rest ih =>
    have hrest := fun step hstep => hsteps step (List.mem_cons_of_mem _ hstep)
    refine List.pairwise_cons.mpr ⟨fun t ht => ?_, ih () hrest⟩
    exact htrans _ _ _ (hsteps _ (List.mem_cons_self ..)) (related_of_steps hrefl htrans hrest ht)
  | ask callee rest ih => exact ih _ hsteps

lemma Only.related {G : Change → Prop} {F : Fault → Prop} (hchange : ∀ s c, G c → R s (s.apply c))
    {m : Analysis α} (hm : m.Only G F) {s t : Session} (h : t ∈ m.moments s) : R s t :=
  related_of_steps hrefl htrans (fun step hstep => hchange step.1 step.2 (hm.of_mem_steps hstep)) h

end Related

lemma start_mem_moments (m : Analysis α) (s : Session) : s ∈ m.moments s := by
  induction m generalizing s with
  | done result => exact List.mem_singleton_self s
  | fault f => exact List.mem_singleton_self s
  | look rest ih => exact ih s s
  | change c rest ih => exact List.mem_cons_self ..
  | ask callee rest ih => exact ih _ s

/-- Each change is made in a state that the action passes through. -/
lemma mem_moments_of_mem_steps {m : Analysis α} {s : Session} {step : Session × Change}
    (h : step ∈ m.steps s) : step.1 ∈ m.moments s := by
  induction m generalizing s with
  | done a => cases h
  | fault f => cases h
  | look rest ih => exact ih s h
  | change c rest ih =>
    rcases List.mem_cons.mp h with rfl | h
    · exact List.mem_cons_self ..
    · exact List.mem_cons_of_mem _ (ih () h)
  | ask callee rest ih => exact ih _ h

lemma mem_moments_of_run {m : Analysis α} {s t : Session} {a : α} (h : m.run s = .ok (a, t)) :
    t ∈ m.moments s := by
  induction m generalizing s with
  | done result =>
    cases h
    exact List.mem_singleton_self _
  | fault f => cases h
  | look rest ih => exact ih s h
  | change c rest ih => exact List.mem_cons_of_mem _ (ih () h)
  | ask callee rest ih => exact ih _ h

lemma exists_mem_moments_of_mem_answers {m : Analysis α} {s : Session}
    {q : CallableKey × List Parameter} (h : q ∈ m.answers s) :
    ∃ t ∈ m.moments s, q.2 = t.declaredParameters q.1 := by
  induction m generalizing s with
  | done result => cases h
  | fault f => cases h
  | look rest ih => exact ih s h
  | change c rest ih =>
    obtain ⟨t, ht, hq⟩ := ih () h
    exact ⟨t, List.mem_cons_of_mem _ ht, hq⟩
  | ask callee rest ih =>
    rcases List.mem_cons.mp h with rfl | h
    · exact ⟨s, start_mem_moments _ s, rfl⟩
    · exact ih _ h

/-! ### Properties that pass from the parts of an action to the whole -/

/-- The action makes plain changes only and never fails. -/
abbrev Plain (m : Analysis α) : Prop := m.Only Change.IsPlain fun _ => False

/-- `Q s m` says something of the run of `m` that starts in `s`. It holds of an action that does
nothing, and of two actions one after the other if it holds of both. -/
structure Sequential (Q : ∀ {α : Type}, Session → Analysis α → Prop) : Prop where
  pure : ∀ {α : Type} (s : Session) (a : α), Q s (Pure.pure a : Analysis α)
  look : ∀ {α : Type} {rest : Session → Analysis α} {s : Session}, Q s (rest s) → Q s (.look rest)
  bind : ∀ {α β : Type} {m : Analysis α} {f : α → Analysis β} {s : Session}, Q s m →
    (∀ a s', m.run s = .ok (a, s') → Q s' (f a)) → Q s (m >>= f)

/-- The property also holds of every action that makes changes in `G` only and never fails. -/
structure CompositionalOver (G : Change → Prop) (Q : ∀ {α : Type}, Session → Analysis α → Prop) : Prop
    extends Sequential Q where
  plain : ∀ {α : Type} {m : Analysis α} (s : Session), m.Only G (fun _ => False) → Q s m

/-- The property also holds of every plain action. -/
abbrev Compositional (Q : ∀ {α : Type}, Session → Analysis α → Prop) : Prop :=
  CompositionalOver Change.IsPlain Q

namespace Sequential

variable {Q : ∀ {α : Type}, Session → Analysis α → Prop} {s : Session}

lemma symbols (hQ : Sequential Q) {f : SymbolTable → Analysis α} (h : Q s (f s.symbols)) :
    Q s (Analysis.symbols >>= f) :=
  hQ.look h

lemma isOnTrial (hQ : Sequential Q) {callee : CallableKey} {f : Bool → Analysis α}
    (h : Q s (f (s.isOnTrial callee))) : Q s (Analysis.isOnTrial callee >>= f) :=
  hQ.look h

lemma discard (hQ : Sequential Q) {m : Analysis α} (h : Q s m) : Q s (Functor.discard m) :=
  hQ.bind h fun _ s' _ => hQ.pure s' _

lemma forM (hQ : Sequential Q) {f : α → Analysis PUnit} {l : List α}
    (hf : ∀ s, ∀ x ∈ l, Q s (f x)) (s : Session) : Q s (l.forM f) := by
  induction l generalizing s with
  | nil => exact hQ.pure s _
  | cons x l ih =>
    refine hQ.bind (hf s x (List.mem_cons_self ..)) fun _ s' _ => ?_
    exact ih (fun t y hy => hf t y (List.mem_cons_of_mem _ hy)) s'

end Sequential

/-- To hold of every step of a run is to hold of every step of its parts. -/
lemma sequential_steps (P : Session × Change → Prop) :
    Sequential fun s m => ∀ step ∈ m.steps s, P step where
  pure _ _ := List.forall_mem_nil _
  look h := h
  bind hm hf step hstep := by
    rcases mem_steps_bind hstep with hstep | ⟨a, s', hrun, hstep⟩
    · exact hm step hstep
    · exact hf a s' hrun step hstep

lemma CompositionalOver.of_plain_bind {G : Change → Prop}
    {Q : ∀ {α : Type}, Session → Analysis α → Prop}
    (plain : ∀ {α : Type} {m : Analysis α} (s : Session), m.Only G (fun _ => False) → Q s m)
    (bind : ∀ {α β : Type} {m : Analysis α} {f : α → Analysis β} {s : Session}, Q s m →
      (∀ a s', m.run s = .ok (a, s') → Q s' (f a)) → Q s (m >>= f)) : CompositionalOver G Q where
  plain := plain
  bind := bind
  pure s a := plain s (.done a)
  look {α rest s} h := by
    refine bind (m := Analysis.look done) (f := rest) (plain s (.look .done)) fun a s' hrun => ?_
    cases hrun
    exact h

end Analysis

end PhpCheck
