import PhpCheck.Ty.Basic

/-!
# Sets of types

A `TypeSet` is the set of types that an expression may have at run time; the empty set says that
nothing is known. Members are listed in the order `Ty.before` without repetition, so two sets with
the same members are equal.
-/

namespace PhpCheck

/-- A finite set of types, listed in rising order. -/
structure TypeSet where
  members : List Ty
  sorted : members.Pairwise fun a b => a.before b = true
  deriving DecidableEq

namespace TypeSet

/-- The unknown type. -/
def empty : TypeSet := ⟨[], List.Pairwise.nil⟩

instance : EmptyCollection TypeSet := ⟨empty⟩

instance : Inhabited TypeSet := ⟨empty⟩

instance : Membership Ty TypeSet := ⟨fun s t => t ∈ s.members⟩

instance (t : Ty) (s : TypeSet) : Decidable (t ∈ s) :=
  inferInstanceAs (Decidable (t ∈ s.members))

def size (s : TypeSet) : Nat := s.members.length

/-- Whether nothing is known about the type. -/
def isEmpty (s : TypeSet) : Bool := s.members.isEmpty

theorem isEmpty_iff {s : TypeSet} : s.isEmpty = true ↔ s = ∅ := by
  obtain ⟨members, sorted⟩ := s
  rw [isEmpty, List.isEmpty_iff]
  constructor
  · rintro rfl
    rfl
  · exact congrArg TypeSet.members

def contains (s : TypeSet) (t : Ty) : Bool := s.members.contains t

/-- The first member in the order of the listing. -/
def head? (s : TypeSet) : Option Ty := s.members.head?

/-- A type put at its place in a rising list, unless it is there. -/
def place (t : Ty) : List Ty → List Ty
  | [] => [t]
  | u :: rest =>
    if t = u then u :: rest else if t.before u then t :: u :: rest else u :: place t rest

theorem mem_place {t x : Ty} {l : List Ty} : x ∈ place t l ↔ x = t ∨ x ∈ l := by
  induction l with
  | nil => simp [place]
  | cons u rest ih =>
    rw [place]
    split
    · rename_i h; subst h; simp
    · split
      · simp
      · simp only [List.mem_cons, ih]
        grind

theorem place_sorted {t : Ty} {l : List Ty} (h : l.Pairwise fun a b => a.before b = true) :
    (place t l).Pairwise fun a b => a.before b = true := by
  induction l with
  | nil => simp [place]
  | cons u rest ih =>
    obtain ⟨hu, hrest⟩ := List.pairwise_cons.mp h
    rw [place]
    split
    · exact h
    · rename_i hne
      split
      · rename_i hlt
        refine List.pairwise_cons.mpr ⟨fun x hx => ?_, h⟩
        rcases List.mem_cons.mp hx with rfl | hx
        · exact hlt
        · exact Ty.before_trans hlt (hu x hx)
      · rename_i hlt
        refine List.pairwise_cons.mpr ⟨fun x hx => ?_, ih hrest⟩
        rcases mem_place.mp hx with rfl | hx
        · exact Ty.before_total hne (by simpa using hlt)
        · exact hu x hx

def insert (s : TypeSet) (t : Ty) : TypeSet := ⟨place t s.members, place_sorted s.sorted⟩

def ofList (types : List Ty) : TypeSet := types.foldl insert ∅

@[simp]
theorem mem_insert {s : TypeSet} {t u : Ty} : u ∈ (s.insert t).members ↔ u = t ∨ u ∈ s.members :=
  mem_place

theorem mem_foldl_insert {types : List Ty} {s : TypeSet} {u : Ty} :
    u ∈ (types.foldl insert s).members ↔ u ∈ s.members ∨ u ∈ types := by
  induction types generalizing s with
  | nil => simp
  | cons t rest ih =>
    rw [List.foldl_cons, ih, mem_insert, List.mem_cons]
    constructor
    · rintro ((h | h) | h)
      · exact .inr (.inl h)
      · exact .inl h
      · exact .inr (.inr h)
    · rintro (h | h | h)
      · exact .inl (.inr h)
      · exact .inl (.inl h)
      · exact .inr h

@[simp]
theorem mem_ofList {types : List Ty} {u : Ty} : u ∈ (ofList types).members ↔ u ∈ types := by
  rw [ofList, mem_foldl_insert]
  exact or_iff_right (List.not_mem_nil)

def of (t : Ty) : TypeSet := ⟨[t], List.pairwise_singleton _ _⟩

/-- The types of either set. -/
def merge (s t : TypeSet) : TypeSet := t.members.foldl insert s

@[simp]
theorem mem_merge {s t : TypeSet} {u : Ty} :
    u ∈ (s.merge t).members ↔ u ∈ s.members ∨ u ∈ t.members :=
  mem_foldl_insert

@[simp]
theorem contains_iff {s : TypeSet} {t : Ty} : s.contains t = true ↔ t ∈ s.members :=
  List.contains_iff_mem

theorem eq_of_sorted {l l' : List Ty} (hl : l.Pairwise fun a b => a.before b = true)
    (hl' : l'.Pairwise fun a b => a.before b = true) (h : ∀ t, t ∈ l ↔ t ∈ l') : l = l' := by
  induction l generalizing l' with
  | nil =>
    cases l' with
    | nil => rfl
    | cons b rest => exact absurd ((h b).mpr (List.mem_cons_self ..)) List.not_mem_nil
  | cons a rest ih =>
    cases l' with
    | nil => exact absurd ((h a).mp (List.mem_cons_self ..)) List.not_mem_nil
    | cons b rest' =>
      obtain ⟨ha, hrest⟩ := List.pairwise_cons.mp hl
      obtain ⟨hb, hrest'⟩ := List.pairwise_cons.mp hl'
      have hirr (t : Ty) (ht : t.before t = true) : False := by simp [Ty.before_irrefl] at ht
      have hab : a = b := by
        rcases List.mem_cons.mp ((h a).mp (List.mem_cons_self ..)) with hab | hab
        · exact hab
        rcases List.mem_cons.mp ((h b).mpr (List.mem_cons_self ..)) with hba | hba
        · exact hba.symm
        · exact (hirr a (Ty.before_trans (ha b hba) (hb a hab))).elim
      subst hab
      have hmem (t : Ty) : t ∈ rest ↔ t ∈ rest' := by
        constructor
        · intro ht
          rcases List.mem_cons.mp ((h t).mp (List.mem_cons_of_mem _ ht)) with rfl | ht'
          · exact (hirr t (ha t ht)).elim
          · exact ht'
        · intro ht
          rcases List.mem_cons.mp ((h t).mpr (List.mem_cons_of_mem _ ht)) with rfl | ht'
          · exact (hirr t (hb t ht)).elim
          · exact ht'
      rw [ih hrest hrest' hmem]

/-- Sets with the same members are the same. -/
theorem ext_members {s t : TypeSet} (h : ∀ u, u ∈ s.members ↔ u ∈ t.members) : s = t := by
  rcases s with ⟨l, hl⟩
  rcases t with ⟨l', hl'⟩
  have hll : l = l' := eq_of_sorted hl hl' h
  subst hll
  rfl

theorem merge_assoc (s t u : TypeSet) : (s.merge t).merge u = s.merge (t.merge u) :=
  ext_members fun _ => by simp only [mem_merge, or_assoc]

theorem merge_comm (s t : TypeSet) : s.merge t = t.merge s :=
  ext_members fun _ => by rw [mem_merge, mem_merge, or_comm]

theorem merge_self (s : TypeSet) : s.merge s = s :=
  ext_members fun _ => by rw [mem_merge, or_self]

theorem merge_empty (s : TypeSet) : s.merge ∅ = s := rfl

theorem empty_merge (s : TypeSet) : (∅ : TypeSet).merge s = s := by
  rw [merge_comm, merge_empty]

/-- Whether `merge s t` holds more than `s`. -/
def grows (s t : TypeSet) : Bool := (s.merge t).size != s.size

/-- Whether some type is known and every one is scalar. -/
def isScalar (s : TypeSet) : Bool := !s.isEmpty && s.members.all Ty.isScalar

/-- Whether the value may be an array. -/
def hasArrayLike (s : TypeSet) : Bool := s.members.any Ty.isArrayLike

/-- Whether some type is known and the value is an array in any case. -/
def isArrayOnly (s : TypeSet) : Bool := !s.isEmpty && s.members.all Ty.isArrayLike

/-- Whether some type is known and it is `t` in any case. -/
def isOnly (s : TypeSet) (t : Ty) : Bool := !s.isEmpty && s.members.all (· == t)

/-- The types of the elements, where they are known. -/
def elementTypes (s : TypeSet) : TypeSet := ofList (s.members.filterMap Ty.element?)

/-- The type of an array with elements of this type. -/
def asArray (s : TypeSet) : TypeSet :=
  if s.isEmpty then of .array else ofList (s.members.map Ty.arrayOf)

/-- The classes that the value may belong to. -/
def classNames (s : TypeSet) : List String := s.members.filterMap Ty.className?

/-- The closure literals that the value may come from. -/
def closureIds (s : TypeSet) : List String := s.members.filterMap Ty.closureId?

/-- The type as it is written: the members with bars between them. -/
def text (s : TypeSet) : String := "|".intercalate (s.members.map Ty.text)

end TypeSet

end PhpCheck
