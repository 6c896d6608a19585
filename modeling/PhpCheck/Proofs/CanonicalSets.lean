import PhpCheck.Proofs.ByteOrder
import PhpCheck.Proofs.Casts
import Mathlib.Data.List.Perm.Subperm
import Mathlib.Order.Defs.Unbundled

/-!
# Canonical sets of types

Types are in a strict total order, and a set lists its members in that order however it has come about. So
the listing says no more than which types are members, and merging is the union of sets: it is associative,
commutative and idempotent, and what it reports as a change is a new member.
-/

namespace PhpCheck

/-! ### The order of types -/

namespace Ty

/-- The order of types by their forms, as these are declared. Types of one form are in the order of the
bytes of their names, or in that of their elements. -/
inductive Precedes : Ty → Ty → Prop
  | form {t u : Ty} (h : t.ctorIdx < u.ctorIdx) : Precedes t u
  | class {a b : String} (h : Text.bytes a < Text.bytes b) : Precedes (.class a) (.class b)
  | arrayOf {t u : Ty} (h : Precedes t u) : Precedes (.arrayOf t) (.arrayOf u)
  | closure {a b : String} (h : Text.bytes a < Text.bytes b) : Precedes (.closure a) (.closure b)

lemma rank_eq_ctorIdx (t : Ty) : t.rank = t.ctorIdx := by
  cases t <;> rfl

lemma before_iff_precedes (t u : Ty) : t.before u = true ↔ t.Precedes u := by
  fun_induction before t u with
  | case1 a b =>
    rw [decide_eq_true_iff, ← Text.bytes_lt_bytes_iff]
    refine ⟨.class, fun h => ?_⟩
    cases h with
    | form h => cases Nat.lt_irrefl _ h
    | «class» h => exact h
  | case2 a b ih =>
    rw [ih]
    refine ⟨.arrayOf, fun h => ?_⟩
    cases h with
    | form h => cases Nat.lt_irrefl _ h
    | arrayOf h => exact h
  | case3 a b =>
    rw [decide_eq_true_iff, ← Text.bytes_lt_bytes_iff]
    refine ⟨.closure, fun h => ?_⟩
    cases h with
    | form h => cases Nat.lt_irrefl _ h
    | closure h => exact h
  | case4 t u hclass harray hclosure =>
    rw [decide_eq_true_iff, rank_eq_ctorIdx, rank_eq_ctorIdx]
    refine ⟨.form, fun h => ?_⟩
    cases h with
    | form h => exact h
    | «class» => exact (hclass _ _ rfl rfl).elim
    | arrayOf => exact (harray _ _ rfl rfl).elim
    | closure => exact (hclosure _ _ rfl rfl).elim

instance : IsStrictTotalOrder Ty fun t u => t.before u = true where
  trichotomous t u htu hut := by
    by_contra hne
    exact hut (before_total hne (Bool.eq_false_iff.mpr htu))
  irrefl t := by
    rw [before_irrefl]
    exact Bool.false_ne_true
  trans _ _ _ := before_trans

lemma nested_before_nested (depth : Nat) (t u : Ty) :
    (nested depth t).before (nested depth u) = t.before u := by
  induction depth with
  | zero => rfl
  | succ depth ih => exact ih

end Ty

/-! ### Members -/

namespace TypeSet

variable {s t : TypeSet} {u : Ty}

lemma nodup_members (s : TypeSet) : s.members.Nodup := by
  refine s.sorted.imp fun {t u} h => ?_
  rintro rfl
  rw [Ty.before_irrefl] at h
  cases h

/-- A merge is a change exactly if the right side has a member that the left side lacks. -/
lemma grows_iff : s.grows t = true ↔ ∃ u ∈ t.members, u ∉ s.members := by
  have hsub : s.members ⊆ (s.merge t).members := fun u hu => mem_merge.mpr (.inl hu)
  have hsubperm := List.subperm_of_subset s.nodup_members hsub
  rw [grows, bne_iff_ne, ← not_iff_not, not_not]
  push Not
  constructor
  · intro hsize u hu
    have hperm := hsubperm.perm_of_length_le (Nat.le_of_eq hsize)
    exact hperm.mem_iff.mpr (mem_merge.mpr (.inr hu))
  · intro hold
    have hmerge : s.merge t = s :=
      ext_members fun u => mem_merge.trans (or_iff_left_of_imp (hold u))
    rw [hmerge]

lemma mem_elementTypes : u ∈ s.elementTypes.members ↔
    .arrayOf u ∈ s.members ∨ u = .mixed ∧ .mixed ∈ s.members := by
  rw [elementTypes, mem_ofList, List.mem_filterMap]
  constructor
  · rintro ⟨t, ht, helement⟩
    cases t <;> cases helement
    · exact .inr ⟨rfl, ht⟩
    · exact .inl ht
  · rintro (hu | ⟨rfl, hmixed⟩)
    · exact ⟨_, hu, rfl⟩
    · exact ⟨_, hmixed, rfl⟩

lemma mem_asArray : u ∈ s.asArray.members ↔
    (∃ t ∈ s.members, u = .arrayOf t) ∨ u = .array ∧ ∀ t, t ∉ s.members := by
  by_cases hempty : s.isEmpty = true
  · have hnone : s.members = [] := List.isEmpty_iff.mp hempty
    have hmem : u ∈ (of .array).members ↔ u = .array := List.mem_singleton
    rw [asArray, if_pos hempty, hmem, hnone]
    simp
  · obtain ⟨t, ht⟩ := List.exists_mem_of_ne_nil _ fun hnil => hempty (List.isEmpty_iff.mpr hnil)
    have hknown : ¬∀ t, t ∉ s.members := fun hnone => hnone t ht
    rw [asArray, if_neg hempty, mem_ofList, List.mem_map]
    simp [hknown, eq_comm]

/-- Arrays of the members have the members as their elements. What is unknown becomes an array of unknown
elements, and is unknown again. -/
lemma elementTypes_asArray (s : TypeSet) : s.asArray.elementTypes = s := by
  apply ext_members
  intro u
  simp [mem_elementTypes, mem_asArray]

end TypeSet

/-! ### How sets come about -/

/-- A way in which a set of types comes about: types are collected from a list, a type is added, two sets
are merged, elements are taken out of arrays, arrays are made, or the ancestors of classes are added. -/
inductive Formation where
  | collected (types : List Ty)
  | added (f : Formation) (t : Ty)
  | merged (f g : Formation)
  | elements (f : Formation)
  | arrays (f : Formation)
  | expanded (s : SymbolTable) (f : Formation)

namespace Formation

/-- The set that comes about. -/
def result : Formation → TypeSet
  | collected types => .ofList types
  | added f t => f.result.insert t
  | merged f g => f.result.merge g.result
  | elements f => f.result.elementTypes
  | arrays f => f.result.asArray
  | expanded s f => s.expand f.result

/-- A type is among those that come together, however they are listed. -/
def Has : Formation → Ty → Prop
  | collected types, t => t ∈ types
  | added f u, t => t = u ∨ f.Has t
  | merged f g, t => f.Has t ∨ g.Has t
  | elements f, t => f.Has (.arrayOf t) ∨ t = .mixed ∧ f.Has .mixed
  | arrays f, t => (∃ u, f.Has u ∧ t = .arrayOf u) ∨ t = .array ∧ ∀ u, ¬f.Has u
  | expanded s f, t =>
    f.Has t ∨ ∃ u, f.Has u ∧ ∃ name ∈ u.className?, ∃ c ∈ s.ancestors name, Ty.ofClass c = t

lemma mem_result (f : Formation) (t : Ty) : t ∈ f.result.members ↔ f.Has t := by
  induction f generalizing t with
  | collected types => exact TypeSet.mem_ofList
  | added f u ih => rw [result, TypeSet.mem_insert, ih, Has]
  | merged f g ihf ihg => rw [result, TypeSet.mem_merge, ihf, ihg, Has]
  | elements f ih => rw [result, TypeSet.mem_elementTypes, ih, ih, Has]
  | arrays f ih => simp only [result, TypeSet.mem_asArray, ih, Has]
  | expanded s f ih => simp only [result, SymbolTable.mem_expand, ih, Has]

/-- The members are listed in the one way in which the types that come together can be in order. -/
lemma members_result_eq_iff (f : Formation) (listing : List Ty) : f.result.members = listing ↔
    listing.Pairwise (fun t u => t.before u = true) ∧ ∀ t, t ∈ listing ↔ f.Has t := by
  constructor
  · rintro rfl
    exact ⟨f.result.sorted, f.mem_result⟩
  · rintro ⟨hsorted, hmem⟩
    exact TypeSet.eq_of_sorted f.result.sorted hsorted fun t => (f.mem_result t).trans (hmem t).symm

end Formation

/-- The order of types is the declared one, strict and total, and arrays are in the order of their elements
at every depth. A set lists the types that have come together, each once and in this order, so that sets
with the same members are equal. Merging is associative, commutative and idempotent, the unknown type adds
nothing, and a change is reported exactly if there is a new member. The elements of arrays of a type are of
that type. -/
theorem type_sets_canonical :
    IsStrictTotalOrder Ty (fun t u => t.before u = true) ∧
    (∀ t u : Ty, t.before u = true ↔ t.Precedes u) ∧
    (∀ depth (t u : Ty), (Ty.nested depth t).before (.nested depth u) = t.before u) ∧
    (∀ (f : Formation) listing, f.result.members = listing ↔
      listing.Pairwise (fun t u => t.before u = true) ∧ ∀ t, t ∈ listing ↔ f.Has t) ∧
    (∀ a b : TypeSet, a = b ↔ ∀ t, t ∈ a ↔ t ∈ b) ∧
    (∀ a b c : TypeSet, (a.merge b).merge c = a.merge (b.merge c)) ∧
    (∀ a b : TypeSet, a.merge b = b.merge a) ∧
    (∀ a : TypeSet, a.merge a = a ∧ a.merge ∅ = a ∧ (∅ : TypeSet).merge a = a) ∧
    (∀ a b : TypeSet, a.grows b = true ↔ ∃ t ∈ b, t ∉ a) ∧
    ∀ a : TypeSet, a.asArray.elementTypes = a := by
  refine ⟨inferInstance, Ty.before_iff_precedes, Ty.nested_before_nested,
    Formation.members_result_eq_iff, fun a b => ⟨?_, TypeSet.ext_members⟩, TypeSet.merge_assoc,
    TypeSet.merge_comm, fun a => ⟨a.merge_self, a.merge_empty, a.empty_merge⟩,
    fun a b => TypeSet.grows_iff, TypeSet.elementTypes_asArray⟩
  rintro rfl t
  rfl

/-- Names are in the order of their bytes, and an array comes after every class. -/
example : (Formation.merged (.collected [.arrayOf .int, .class "é", .class "z", .class "é"])
    (.elements (.collected [.mixed, .arrayOf (.class "Z")]))).result.members =
      [.mixed, .class "Z", .class "z", .class "é", .arrayOf .int] := by
  decide +kernel

end PhpCheck
