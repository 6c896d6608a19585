import PhpCheck.Proofs.Traversal
import Mathlib.Data.List.Count
import Mathlib.Logic.Relation

/-!
# Which bodies lead to which

A callable contains another one if the walk of its body comes to a declaration with the identity of the
other one. If no callable contains itself, at whatever distance, then the number of bodies that a
callable leads to is a rank that falls from each callable to those that it contains. Together with the
number of bodies that are not on trial it measures how deep bodies can still be entered.
-/

namespace PhpCheck

namespace SymbolTable

/-- The callables whose declarations the walk of the callable's body comes to. -/
def contained (symbols : SymbolTable) (key : CallableKey) : List CallableKey :=
  match symbols.callable? key with
  | none => []
  | some c =>
    match c.body with
    | none => []
    | some body => (Visit.visits ⟨c.owner, body⟩).filterMap (Visit.declares? c.site.file)

/-- The callable `a` contains the callable `b`. -/
def Contains (symbols : SymbolTable) (a b : CallableKey) : Prop := b ∈ symbols.contained a

/-- No callable contains itself, directly or through others. -/
def Acyclic (symbols : SymbolTable) : Prop := ∀ key, ¬Relation.TransGen symbols.Contains key key

/-- The keys under which callables with a body are filed. -/
def bodyKeys (symbols : SymbolTable) : List CallableKey :=
  (symbols.functions.entries.filter (·.2.body.isSome)).map (fun entry => .function entry.1) ++
    symbols.classes.entries.flatMap fun entry =>
      (entry.2.methods.entries.filter (·.2.body.isSome)).map fun method => .method entry.1 method.1

/-- The callable is known and has a body. -/
def HasBody (symbols : SymbolTable) (key : CallableKey) : Prop :=
  ∃ c body, symbols.callable? key = some c ∧ c.body = some body

variable {symbols other : SymbolTable}

lemma length_bodyKeys (symbols : SymbolTable) : symbols.bodyKeys.length = symbols.bodyCount := by
  simp only [bodyKeys, bodyCount, callables, Table.values, List.length_append, List.length_map,
    List.length_flatMap, List.countP_append, List.countP_map, List.countP_flatMap, List.flatMap_map,
    ← List.countP_eq_length_filter, Function.comp_def]

lemma HasBody.mem_bodyKeys {key : CallableKey} (h : symbols.HasBody key) : key ∈ symbols.bodyKeys := by
  obtain ⟨c, body, hc, hbody⟩ := h
  have hsome : c.body.isSome = true := by simp [hbody]
  rw [bodyKeys, List.mem_append]
  cases key with
  | function name =>
    left
    have hentry : (name, c) ∈ symbols.functions.entries := Table.get?_eq_some_iff.mp hc
    exact List.mem_map.mpr ⟨(name, c), List.mem_filter.mpr ⟨hentry, hsome⟩, rfl⟩
  | method owner name =>
    right
    obtain ⟨d, hd, hmethod⟩ := Option.bind_eq_some_iff.mp hc
    have hclass : (owner, d) ∈ symbols.classes.entries := Table.get?_eq_some_iff.mp hd
    have hentry : (name, c) ∈ d.methods.entries := Table.get?_eq_some_iff.mp hmethod
    refine List.mem_flatMap.mpr ⟨(owner, d), hclass, ?_⟩
    exact List.mem_map.mpr ⟨(name, c), List.mem_filter.mpr ⟨hentry, hsome⟩, rfl⟩

lemma HasBody.of_contains {a b : CallableKey} (h : symbols.Contains a b) : symbols.HasBody a := by
  unfold Contains contained at h
  split at h
  · cases h
  · rename_i c hc
    split at h
    · cases h
    · rename_i body hbody
      exact ⟨c, body, hc, hbody⟩

lemma contained_eq {key : CallableKey} {c : Callable} {body : Node}
    (hc : symbols.callable? key = some c) (hbody : c.body = some body) :
    symbols.contained key =
      (Visit.visits ⟨c.owner, body⟩).filterMap (Visit.declares? c.site.file) := by
  simp only [contained, hc, hbody]

/-- To see that no callable contains itself it is enough to number them. -/
lemma acyclic_of_decreasing (number : CallableKey → Nat)
    (h : ∀ a ∈ symbols.bodyKeys, ∀ b ∈ symbols.contained a, number b < number a) :
    symbols.Acyclic := by
  have hstep : ∀ a b, symbols.Contains a b → number b < number a := by
    intro a b hab
    exact h a (HasBody.of_contains hab).mem_bodyKeys b hab
  have htrans : ∀ a b, Relation.TransGen symbols.Contains a b → number b < number a := by
    intro a b hab
    induction hab with
    | single hab => exact hstep _ _ hab
    | tail _ hbc ih => exact Nat.lt_trans (hstep _ _ hbc) ih
  intro key hkey
  exact absurd (htrans key key hkey) (Nat.lt_irrefl _)

/-! ### What a run does not change -/

lemma SameCores.contained_eq (h : symbols.SameCores other) (key : CallableKey) :
    other.contained key = symbols.contained key := by
  have hcontained : ∀ s : SymbolTable, s.contained key =
      (((s.callable? key).map Callable.core).bind fun c => c.body.map fun body =>
        (Visit.visits ⟨c.owner, body⟩).filterMap (Visit.declares? c.site.file)).getD [] := by
    intro s
    unfold contained
    cases s.callable? key with
    | none => rfl
    | some c =>
      cases hbody : c.body with
      | none => simp [Callable.core, hbody]
      | some body => simp [Callable.core, hbody]
  rw [hcontained, hcontained, h key]

lemma Acyclic.of_sameCores (hacyclic : symbols.Acyclic) (h : symbols.SameCores other) :
    other.Acyclic := by
  have hsame : other.Contains = symbols.Contains := by
    funext a b
    rw [Contains, Contains, h.contained_eq]
  unfold Acyclic
  rw [hsame]
  exact hacyclic

lemma HasBody.of_sameCores {key : CallableKey} (hbody : symbols.HasBody key)
    (h : symbols.SameCores other) : other.HasBody key := by
  obtain ⟨c, body, hc, hbody⟩ := hbody
  obtain ⟨d, hd, hdc⟩ := h.exists_callable hc
  have hsame : d.core.body = c.core.body := by rw [hdc]
  exact ⟨d, body, hd, hsame.trans hbody⟩

/-! ### The measure -/

lemma countP_lt_countP {α : Type} {p q : α → Bool} {l : List α}
    (hpq : ∀ x, p x = true → q x = true) {a : α} (ha : a ∈ l) (hp : p a = false) (hq : q a = true) :
    l.countP p < l.countP q := by
  induction l with
  | nil => cases ha
  | cons x l ih =>
    have hle : l.countP p ≤ l.countP q := List.countP_mono_left fun y _ => hpq y
    rcases List.mem_cons.mp ha with rfl | ha
    · rw [List.countP_cons_of_neg (by simp [hp]), List.countP_cons_of_pos hq]
      omega
    · have hlt := ih ha
      by_cases hx : p x = true
      · rw [List.countP_cons_of_pos hx, List.countP_cons_of_pos (hpq x hx)]
        omega
      · rw [List.countP_cons_of_neg hx]
        have hstep := List.countP_cons (p := q) (a := x) (l := l)
        omega

open Classical in
/-- The number of bodies that a callable leads to. -/
noncomputable def rank (symbols : SymbolTable) (key : CallableKey) : Nat :=
  symbols.bodyKeys.countP fun other => decide (Relation.TransGen symbols.Contains key other)

lemma rank_lt_rank (hacyclic : symbols.Acyclic) {a b : CallableKey} (h : symbols.Contains a b)
    (hb : symbols.HasBody b) : symbols.rank b < symbols.rank a := by
  apply countP_lt_countP _ hb.mem_bodyKeys
  · simpa using hacyclic b
  · simpa using Relation.TransGen.single h
  · intro c hc
    have hbc : Relation.TransGen symbols.Contains b c := by simpa using hc
    simpa using Relation.TransGen.head h hbc

lemma rank_lt_bodyCount (hacyclic : symbols.Acyclic) {key : CallableKey} (h : symbols.HasBody key) :
    symbols.rank key < symbols.bodyCount := by
  rw [← length_bodyKeys, rank, List.countP_lt_length_iff]
  exact ⟨key, h.mem_bodyKeys, by simpa using hacyclic key⟩

/-- The number of bodies that are not on trial. -/
def free (symbols : SymbolTable) (trials : List Trial) : Nat :=
  symbols.bodyKeys.countP fun key => !trials.any fun trial => trial.callee == key

lemma free_le_bodyCount (symbols : SymbolTable) (trials : List Trial) :
    symbols.free trials ≤ symbols.bodyCount := by
  rw [← length_bodyKeys]
  exact List.countP_le_length

lemma free_cons_lt {callee : CallableKey} (h : symbols.HasBody callee) {trials : List Trial}
    (hfree : trials.any (fun trial => trial.callee == callee) = false) (declared : List Parameter) :
    symbols.free (⟨callee, declared⟩ :: trials) < symbols.free trials := by
  apply countP_lt_countP _ h.mem_bodyKeys
  · simp
  · simp [hfree]
  · intro key hkey
    simp only [List.any_cons, Bool.not_or, Bool.and_eq_true] at hkey
    exact hkey.2

/-- How deep bodies can be entered from a place where the trials are in progress and all declarations
have a rank below the bound. -/
def depth (symbols : SymbolTable) (trials : List Trial) (bound : Nat) : Nat :=
  symbols.free trials * (symbols.bodyCount + 1) + bound + 1

lemma depth_lt_depth (symbols : SymbolTable) (trials : List Trial) {a b : Nat} (h : a < b) :
    symbols.depth trials a < symbols.depth trials b := by
  unfold depth
  omega

/-- A trial uses up a body for good, which makes up for the declarations in the body that it enters. -/
lemma depth_cons_lt (hacyclic : symbols.Acyclic) {callee : CallableKey} (h : symbols.HasBody callee)
    {trials : List Trial} (hfree : trials.any (fun trial => trial.callee == callee) = false)
    (declared : List Parameter) (bound : Nat) :
    symbols.depth (⟨callee, declared⟩ :: trials) (symbols.rank callee) <
      symbols.depth trials bound := by
  have hrank := rank_lt_bodyCount hacyclic h
  have hmul := Nat.mul_le_mul_right (symbols.bodyCount + 1) (free_cons_lt h hfree declared)
  rw [Nat.succ_mul] at hmul
  unfold depth
  omega

lemma depth_nil_le_nestingBound (symbols : SymbolTable) :
    symbols.depth [] symbols.bodyCount ≤ symbols.nestingBound := by
  have hmul := Nat.mul_le_mul_right (symbols.bodyCount + 1) (symbols.free_le_bodyCount [])
  rw [nestingBound, Nat.add_mul, Nat.one_mul, depth]
  omega

end SymbolTable

end PhpCheck
