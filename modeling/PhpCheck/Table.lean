/-!
# Insertion-ordered tables

A `Table α` files values under text keys and remembers the order in which keys were first filed.
Replacing or changing a value keeps its place. `get?` is the view that the other operations are
described by.
-/

namespace PhpCheck

/-- Values filed under distinct keys, in the order in which the keys came. -/
structure Table (α : Type) where
  entries : List (String × α)
  nodup : (entries.map Prod.fst).Nodup
  deriving DecidableEq

namespace Table

variable {α : Type}

def empty : Table α := ⟨[], List.nodup_nil⟩

instance : EmptyCollection (Table α) := ⟨empty⟩

instance : Inhabited (Table α) := ⟨empty⟩

/-- The keys, oldest first. -/
def keys (t : Table α) : List String := t.entries.map Prod.fst

/-- The values, oldest key first. -/
def values (t : Table α) : List α := t.entries.map Prod.snd

def size (t : Table α) : Nat := t.entries.length

/-- The value filed under a key. -/
def get? (t : Table α) (key : String) : Option α := t.entries.lookup key

def contains (t : Table α) (key : String) : Bool := (t.get? key).isSome

/-- The table with the value under `key` changed by `f`; nothing changes when there is none. -/
def modify (t : Table α) (key : String) (f : α → α) : Table α where
  entries := t.entries.map fun entry => (entry.1, if entry.1 == key then f entry.2 else entry.2)
  nodup := by simpa [Function.comp_def] using t.nodup

theorem lookup_isSome_iff (entries : List (String × α)) (key : String) :
    (entries.lookup key).isSome = true ↔ key ∈ entries.map Prod.fst := by
  induction entries with
  | nil => simp
  | cons entry rest ih =>
    rcases entry with ⟨k, v⟩
    by_cases h : key = k
    · simp [h]
    · have hk : (key == k) = false := by simpa using h
      simp only [List.lookup_cons, hk, ih, List.map_cons, List.mem_cons, h, false_or]

theorem contains_iff_mem_keys (t : Table α) (key : String) :
    t.contains key = true ↔ key ∈ t.keys :=
  lookup_isSome_iff t.entries key

/-- The table with `value` filed under `key` at the end, unless the key is taken. -/
def add (t : Table α) (key : String) (value : α) : Table α :=
  if h : t.contains key then t
  else
    { entries := t.entries ++ [(key, value)]
      nodup := by
        have hk : key ∉ t.keys := fun hm => h ((t.contains_iff_mem_keys key).mpr hm)
        simp only [List.map_append, List.map_cons, List.map_nil]
        refine List.nodup_append.mpr ⟨t.nodup, by simp, ?_⟩
        intro a ha b hb
        rw [List.mem_singleton] at hb
        subst hb
        exact fun hab => hk (hab ▸ ha) }

/-- The table with `value` filed under `key`: in place of the old value if the key is taken, at
the end otherwise. -/
def insert (t : Table α) (key : String) (value : α) : Table α :=
  if t.contains key then t.modify key fun _ => value else t.add key value

/-! ### What the operations do to the view -/

@[simp]
theorem get?_empty (key : String) : (∅ : Table α).get? key = none := rfl

theorem lookup_modified (entries : List (String × α)) (key k : String) (f : α → α) :
    (entries.map fun entry => (entry.1, if entry.1 == key then f entry.2 else entry.2)).lookup k =
      if k = key then (entries.lookup k).map f else entries.lookup k := by
  induction entries with
  | nil => simp
  | cons entry rest ih =>
    rcases entry with ⟨e, v⟩
    by_cases he : k = e
    · subst he
      by_cases hk : k = key <;> simp [hk]
    · have hb : (k == e) = false := by simpa using he
      simp only [List.map_cons, List.lookup_cons, hb, ih]

@[simp]
theorem get?_modify (t : Table α) (key k : String) (f : α → α) :
    (t.modify key f).get? k = if k = key then (t.get? k).map f else t.get? k :=
  lookup_modified t.entries key k f

@[simp]
theorem keys_modify (t : Table α) (key : String) (f : α → α) : (t.modify key f).keys = t.keys := by
  simp [keys, modify, Function.comp_def]

theorem lookup_concat (entries : List (String × α)) (key k : String) (value : α) :
    (entries ++ [(key, value)]).lookup k =
      (entries.lookup k).or (if k = key then some value else none) := by
  induction entries with
  | nil =>
    by_cases h : k = key
    · simp [h]
    · have hb : (k == key) = false := by simpa using h
      simp [List.lookup_cons, hb, h]
  | cons entry rest ih =>
    rcases entry with ⟨e, v⟩
    by_cases he : k = e
    · simp [he]
    · have hb : (k == e) = false := by simpa using he
      simp only [List.cons_append, List.lookup_cons, hb, ih]

theorem add_of_contains {t : Table α} {key : String} (h : t.contains key = true) (value : α) :
    t.add key value = t := by
  rw [add, dif_pos h]

theorem entries_add_of_not_contains {t : Table α} {key : String} (h : ¬t.contains key = true)
    (value : α) : (t.add key value).entries = t.entries ++ [(key, value)] := by
  rw [add, dif_neg h]

/-- A taken key keeps its value, and a free one gets the new one. -/
theorem get?_add (t : Table α) (key k : String) (value : α) :
    (t.add key value).get? k = (t.get? k).or (if k = key then some value else none) := by
  by_cases h : t.contains key = true
  · rw [add_of_contains h]
    by_cases hk : k = key
    · subst hk
      obtain ⟨v, hv⟩ := Option.isSome_iff_exists.mp h
      simp [hv]
    · simp [hk]
  · rw [get?, entries_add_of_not_contains h]
    exact lookup_concat t.entries key k value

theorem lookup_eq_some_iff_mem {entries : List (String × α)} (h : (entries.map Prod.fst).Nodup)
    {key : String} {value : α} :
    entries.lookup key = some value ↔ (key, value) ∈ entries := by
  induction entries with
  | nil => simp
  | cons entry rest ih =>
    rcases entry with ⟨k, v⟩
    obtain ⟨hk, hrest⟩ := List.nodup_cons.mp h
    by_cases he : key = k
    · subst he
      have hnot : (key, value) ∉ rest := fun hm => hk (List.mem_map.mpr ⟨_, hm, rfl⟩)
      simp [hnot, eq_comm]
    · have hb : (key == k) = false := by simpa using he
      simp [List.lookup_cons, hb, ih hrest, he]

/-- The value under a key is the one that it is filed with. -/
theorem get?_eq_some_iff {t : Table α} {key : String} {value : α} :
    t.get? key = some value ↔ (key, value) ∈ t.entries :=
  lookup_eq_some_iff_mem t.nodup

/-- Whether two tables file equal values under the same keys, in whatever order. -/
def sameBindings [BEq α] (s t : Table α) : Bool :=
  s.size == t.size && s.entries.all fun entry => t.get? entry.1 == some entry.2

end Table

end PhpCheck
