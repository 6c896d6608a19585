import PhpCheck.Proofs.Inheritance
import PhpCheck.Proofs.TypeGrammar

/-!
# Casts

Whether a known type may stand where another is expected is settled by a pair of members, so that a cast is
not lost when either side gets more members. A member may stand for another by itself or through an ancestor
of its class. Ancestors are looked for once, at the members: the elements of arrays, at any depth, are
compared without them.
-/

namespace PhpCheck

/-! ### Single types -/

namespace Ty

lemma castsTo_self (t : Ty) : t.castsTo t = true := by
  unfold castsTo
  simp

lemma mixed_castsTo (t : Ty) : Ty.mixed.castsTo t = true := by
  cases t <;> rfl

lemma castsTo_mixed (t : Ty) : t.castsTo .mixed = true := by
  cases t <;> rfl

lemma arrayOf_castsTo_arrayOf (a b : Ty) : (arrayOf a).castsTo (arrayOf b) = a.castsTo b := by
  by_cases hab : a = b
  · rw [hab, castsTo_self, castsTo_self]
  · simp [castsTo, hab]

lemma nested_castsTo_nested (depth : Nat) (a b : Ty) :
    (nested depth a).castsTo (nested depth b) = a.castsTo b := by
  induction depth with
  | zero => rfl
  | succ depth ih => rw [nested, nested, arrayOf_castsTo_arrayOf, ih]

end Ty

namespace SymbolTable

variable {s : SymbolTable}

/-- A value of the one type may stand where the other is expected, by itself or as an object of an ancestor
of its class. -/
def PassesFor (s : SymbolTable) (t u : Ty) : Prop :=
  t.castsTo u = true ∨ ∃ name ∈ t.className?, ∃ c ∈ s.ancestors name, (Ty.ofClass c).castsTo u = true

/-- Arrays have no ancestors. -/
lemma passesFor_arrayOf_iff {a b : Ty} : s.PassesFor (.arrayOf a) (.arrayOf b) ↔ a.castsTo b = true := by
  rw [PassesFor, Ty.arrayOf_castsTo_arrayOf]
  simp [Ty.className?]

/-! ### Sets of types -/

lemma mem_expand {types : TypeSet} {t : Ty} : t ∈ (s.expand types).members ↔
    t ∈ types.members ∨
      ∃ r ∈ types.members, ∃ name ∈ r.className?, ∃ c ∈ s.ancestors name, Ty.ofClass c = t := by
  simp only [expand, TypeSet.mem_merge, TypeSet.mem_ofList, TypeSet.classNames, List.mem_map,
    List.mem_flatMap, List.mem_filterMap, Option.mem_def]
  constructor
  · rintro (ht | ⟨c, ⟨name, ⟨r, hr, hname⟩, hc⟩, rfl⟩)
    · exact .inl ht
    · exact .inr ⟨r, hr, name, hname, c, hc, rfl⟩
  · rintro (ht | ⟨r, hr, name, hname, c, hc, rfl⟩)
    · exact .inl ht
    · exact .inr ⟨c, ⟨name, ⟨r, hr, hname⟩, hc⟩, rfl⟩

/-- Some member of the expanded source fits exactly if some member of the source passes. -/
lemma exists_mem_expand_iff {source : TypeSet} {u : Ty} :
    (∃ t ∈ (s.expand source).members, t.castsTo u = true) ↔ ∃ t ∈ source.members, s.PassesFor t u := by
  simp only [mem_expand]
  constructor
  · rintro ⟨t, ht | ⟨r, hr, name, hname, c, hc, rfl⟩, hcast⟩
    · exact ⟨t, ht, .inl hcast⟩
    · exact ⟨r, hr, .inr ⟨name, hname, c, hc, hcast⟩⟩
  · rintro ⟨t, ht, hcast | ⟨name, hname, c, hc, hcast⟩⟩
    · exact ⟨t, .inl ht, hcast⟩
    · exact ⟨.ofClass c, .inr ⟨t, ht, name, hname, c, hc, rfl⟩, hcast⟩

lemma exists_mem_of_ne_empty {types : TypeSet} (h : types ≠ ∅) : ∃ t, t ∈ types.members := by
  apply List.exists_mem_of_ne_nil
  intro hnil
  exact h (TypeSet.isEmpty_iff.mp (List.isEmpty_iff.mpr hnil))

/-- Between known types a cast comes down to a pair of members: what is mixed passes for every member. -/
lemma castsTo_iff_exists_passesFor {source target : TypeSet} (hsource : source ≠ ∅)
    (htarget : target ≠ ∅) : s.castsTo source target = true ↔
      ∃ t ∈ source.members, ∃ u ∈ target.members, s.PassesFor t u := by
  have hpairs : ((s.expand source).members.any fun t => target.members.any t.castsTo) = true ↔
      ∃ t ∈ source.members, ∃ u ∈ target.members, s.PassesFor t u := by
    simp only [List.any_eq_true]
    constructor
    · rintro ⟨t, ht, u, hu, hcast⟩
      obtain ⟨r, hr, hpasses⟩ := exists_mem_expand_iff.mp ⟨t, ht, hcast⟩
      exact ⟨r, hr, u, hu, hpasses⟩
    · rintro ⟨r, hr, u, hu, hpasses⟩
      obtain ⟨t, ht, hcast⟩ := exists_mem_expand_iff.mpr ⟨r, hr, hpasses⟩
      exact ⟨t, ht, u, hu, hcast⟩
  simp only [castsTo, Bool.or_eq_true, TypeSet.isEmpty_iff, TypeSet.contains_iff, hpairs, hsource,
    htarget, false_or]
  constructor
  · rintro ((hmixed | hmixed) | hpair)
    · obtain ⟨u, hu⟩ := exists_mem_of_ne_empty htarget
      exact ⟨.mixed, hmixed, u, hu, .inl (Ty.mixed_castsTo u)⟩
    · obtain ⟨t, ht⟩ := exists_mem_of_ne_empty hsource
      exact ⟨t, ht, .mixed, hmixed, .inl (Ty.castsTo_mixed t)⟩
    · exact hpair
  · exact .inr

lemma castsTo_of_passesFor {source target : TypeSet} {t u : Ty} (ht : t ∈ source.members)
    (hu : u ∈ target.members) (h : s.PassesFor t u) : s.castsTo source target = true := by
  have hsource : source ≠ ∅ := by
    rintro rfl
    cases ht
  have htarget : target ≠ ∅ := by
    rintro rfl
    cases hu
  exact (castsTo_iff_exists_passesFor hsource htarget).mpr ⟨t, ht, u, hu, h⟩

lemma castsTo_of_iff {t u : Ty} : s.castsTo (.of t) (.of u) = true ↔ s.PassesFor t u := by
  have hne (t : Ty) : TypeSet.of t ≠ ∅ := fun h => by cases congrArg TypeSet.members h
  rw [castsTo_iff_exists_passesFor (hne t) (hne u)]
  simp [TypeSet.of]

/-- A cast between known types holds as well after types have been added to either side, whatever the
classes inherit. So types that have a member in common may stand for each other. -/
theorem casts_survive_widening (s : SymbolTable) (a b : TypeSet) :
    (a ≠ ∅ → b ≠ ∅ → s.castsTo a b = true → ∀ x y, s.castsTo (a.merge x) (b.merge y) = true) ∧
      ∀ t, t ∈ a → t ∈ b → s.castsTo a b = true ∧ s.castsTo b a = true := by
  constructor
  · intro ha hb hcast x y
    obtain ⟨t, ht, u, hu, hpasses⟩ := (castsTo_iff_exists_passesFor ha hb).mp hcast
    have ht' : t ∈ (a.merge x).members := TypeSet.mem_merge.mpr (.inl ht)
    have hu' : u ∈ (b.merge y).members := TypeSet.mem_merge.mpr (.inl hu)
    exact castsTo_of_passesFor ht' hu' hpasses
  · intro t ha hb
    have hself : s.PassesFor t t := .inl t.castsTo_self
    exact ⟨castsTo_of_passesFor ha hb hself, castsTo_of_passesFor hb ha hself⟩

/-- The cast rests on an ancestor that is two steps up a chain of parents without end. -/
theorem casts_survive_widening_ancestor :
    let s := ((SymbolTable.addClass {} (.declared "A" (some "B") .internal)).addClass
      (.declared "B" (some "C") .internal)).addClass (.declared "C" (some "A") .internal)
    let a := TypeSet.of (.class "a")
    let c := TypeSet.of (.class "C")
    let x := TypeSet.ofList [.int, .arrayOf .int]
    s.castsTo a c = true ∧ s.castsTo (a.merge x) (c.merge (.of .null)) = true ∧
      s.castsTo (a.merge x) (.ofList [.void, .arrayOf .int]) = true := by
  intro s a c x
  have hcast : s.castsTo a c = true := by decide +kernel
  have hwidened := (casts_survive_widening s a c).1 (by decide) (by decide) hcast x (.of .null)
  have hshared := (casts_survive_widening s (a.merge x) (.ofList [.void, .arrayOf .int])).2
    (.arrayOf .int) (by decide +kernel) (by decide +kernel)
  exact ⟨hcast, hwidened, hshared.1⟩

/-- What is unknown passes for everything, and may fail to once something is known of it. -/
example : castsTo {} ∅ (.of .int) = true ∧ castsTo {} (TypeSet.merge ∅ (.of .void)) (.of .int) = false := by
  decide

/-- A type may stand for another by itself or through an ancestor of its class. An array of the one may
stand for an array of the other, at any depth, exactly if the first is the case. -/
theorem array_casts_follow_elements (s : SymbolTable) (t u : Ty) :
    (s.castsTo (.of t) (.of u) = true ↔ t.castsTo u = true ∨
      ∃ name ∈ t.className?, ∃ c ∈ s.ancestors name, (Ty.ofClass c).castsTo u = true) ∧
    ∀ depth, s.castsTo (.of (.nested (depth + 1) t)) (.of (.nested (depth + 1) u)) = true ↔
      t.castsTo u = true := by
  refine ⟨castsTo_of_iff, fun depth => ?_⟩
  calc s.castsTo (.of (.nested (depth + 1) t)) (.of (.nested (depth + 1) u)) = true
      ↔ s.PassesFor (.arrayOf (.nested depth t)) (.arrayOf (.nested depth u)) := castsTo_of_iff
    _ ↔ (Ty.nested depth t).castsTo (.nested depth u) = true := passesFor_arrayOf_iff
    _ ↔ t.castsTo u = true := by rw [Ty.nested_castsTo_nested]

/-- An object passes for one of its parent class, and an array of such objects does not. -/
theorem array_cast_ignores_parent :
    let s := (SymbolTable.addClass {} (.declared "Animal" none .internal)).addClass
      (.declared "Dog" (some "Animal") .internal)
    s.castsTo (.of (.class "Dog")) (.of (.class "Animal")) = true ∧
      s.castsTo (.of (.arrayOf (.class "Dog"))) (.of (.arrayOf (.class "Animal"))) = false := by
  decide +kernel

end SymbolTable

end PhpCheck
