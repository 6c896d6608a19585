import PhpCheck.Text.Case

/-!
# Types of values

`Ty` is one type that a value may have at run time. `Ty.before` is the order in which a union lists
its members: the plain types as they stand in the definition, then classes, array types and
closures, each by what they carry. It is a strict total order.
-/

namespace PhpCheck

/-- A type of a value. -/
inductive Ty where
  | int
  | float
  | string
  | bool
  | null
  | array
  | mixed
  | callable
  | object
  | void
  | resource
  /-- An object of the named class; the name has no namespace separator in front. -/
  | class (name : String)
  /-- An array whose elements have the given type, written `T[]`. -/
  | arrayOf (element : Ty)
  /-- The value of the closure literal with the given identity. -/
  | closure (id : String)
  deriving DecidableEq, Inhabited

namespace Ty

/-- The class type of a name as written. -/
def ofClass (name : String) : Ty := .class (Text.unrooted name)

def isScalar : Ty → Bool
  | .int | .float | .string | .bool | .null => true
  | _ => false

/-- Whether values of the type are arrays. -/
def isArrayLike : Ty → Bool
  | .array | .arrayOf _ => true
  | _ => false

/-- The class that values of the type belong to. -/
def className? : Ty → Option String
  | .class name => some name
  | .closure _ => some "Closure"
  | _ => none

/-- The identity of the closure literal that a value of the type came from. -/
def closureId? : Ty → Option String
  | .closure id => some id
  | _ => none

/-- What an element of a value of the type may be. -/
def element? : Ty → Option Ty
  | .arrayOf element => some element
  | .mixed => some .mixed
  | _ => none

def text : Ty → String
  | .int => "int"
  | .float => "float"
  | .string => "string"
  | .bool => "bool"
  | .null => "null"
  | .array => "array"
  | .mixed => "mixed"
  | .callable => "callable"
  | .object => "object"
  | .void => "void"
  | .resource => "resource"
  | .class name => name
  | .arrayOf element => element.text ++ "[]"
  | .closure _ => "Closure"

/-! ### Casting -/

/-- Whether a value of the one type may stand where the other is expected, inheritance aside. -/
def castsTo (source target : Ty) : Bool :=
  source == target ||
    match source, target with
    | .mixed, _ | _, .mixed => true
    | .int, .float => true
    | .arrayOf _, .array | .array, .arrayOf _ => true
    | .arrayOf a, .arrayOf b => a.castsTo b
    | .class a, .class b => Text.sameIgnoringCase a b
    | .class _, .object | .closure _, .object => true
    | .closure _, .closure _ => true
    | .closure _, .class name | .class name, .callable => Text.sameIgnoringCase name "closure"
    | .closure _, .callable | .string, .callable | .array, .callable => true
    | _, _ => false

/-! ### The order of members -/

/-- The place of the type's form among the forms. -/
def rank : Ty → Nat
  | .int => 0
  | .float => 1
  | .string => 2
  | .bool => 3
  | .null => 4
  | .array => 5
  | .mixed => 6
  | .callable => 7
  | .object => 8
  | .void => 9
  | .resource => 10
  | .class _ => 11
  | .arrayOf _ => 12
  | .closure _ => 13

/-- Whether the first type is listed before the second. -/
def before : Ty → Ty → Bool
  | .class a, .class b => a < b
  | .arrayOf a, .arrayOf b => a.before b
  | .closure a, .closure b => a < b
  | a, b => a.rank < b.rank

theorem rank_le_of_before {a b : Ty} (h : a.before b = true) : a.rank ≤ b.rank := by
  rw [before.eq_def] at h
  split at h
  · exact Nat.le_refl _
  · exact Nat.le_refl _
  · exact Nat.le_refl _
  · exact Nat.le_of_lt (of_decide_eq_true h)

theorem before_of_rank_lt {a b : Ty} (h : a.rank < b.rank) : a.before b = true := by
  rw [before.eq_def]
  split
  · exact absurd h (Nat.lt_irrefl _)
  · exact absurd h (Nat.lt_irrefl _)
  · exact absurd h (Nat.lt_irrefl _)
  · exact decide_eq_true h

/-- The forms without content are told apart by their rank. -/
theorem eq_of_rank_eq {a b : Ty} (ha : a.rank < 11) (h : b.rank = a.rank) : b = a := by
  cases a with
  | «class» | arrayOf | closure => simp [rank] at ha
  | _ => cases b <;> simp_all [rank]

theorem before_irrefl (a : Ty) : a.before a = false := by
  induction a with
  | arrayOf a ih => simpa [before] using ih
  | «class» name => exact decide_eq_false (String.lt_irrefl name)
  | closure key => exact decide_eq_false (String.lt_irrefl key)
  | _ => simp [before, rank]

theorem eq_class_of_rank {t : Ty} (h : t.rank = 11) : ∃ name, t = .class name := by
  cases t <;> simp [rank] at h
  exact ⟨_, rfl⟩

theorem eq_arrayOf_of_rank {t : Ty} (h : t.rank = 12) : ∃ element, t = .arrayOf element := by
  cases t <;> simp [rank] at h
  exact ⟨_, rfl⟩

theorem eq_closure_of_rank {t : Ty} (h : t.rank = 13) : ∃ key, t = .closure key := by
  cases t <;> simp [rank] at h
  exact ⟨_, rfl⟩

theorem before_trans {a b c : Ty} (hab : a.before b = true) (hbc : b.before c = true) :
    a.before c = true := by
  by_cases hlt : a.rank < c.rank
  · exact before_of_rank_lt hlt
  have hb : b.rank = a.rank := by have := rank_le_of_before hab; have := rank_le_of_before hbc; omega
  have hc : c.rank = a.rank := by have := rank_le_of_before hab; have := rank_le_of_before hbc; omega
  clear hlt
  induction a generalizing b c with
  | arrayOf a ih =>
    obtain ⟨b, rfl⟩ := eq_arrayOf_of_rank hb
    obtain ⟨c, rfl⟩ := eq_arrayOf_of_rank hc
    simp only [before] at hab hbc ⊢
    by_cases hlt : a.rank < c.rank
    · exact before_of_rank_lt hlt
    have := rank_le_of_before hab
    have := rank_le_of_before hbc
    exact ih hab hbc (by omega) (by omega)
  | «class» a =>
    obtain ⟨b, rfl⟩ := eq_class_of_rank hb
    obtain ⟨c, rfl⟩ := eq_class_of_rank hc
    simp only [before, decide_eq_true_eq] at hab hbc ⊢
    exact String.lt_trans hab hbc
  | closure a =>
    obtain ⟨b, rfl⟩ := eq_closure_of_rank hb
    obtain ⟨c, rfl⟩ := eq_closure_of_rank hc
    simp only [before, decide_eq_true_eq] at hab hbc ⊢
    exact String.lt_trans hab hbc
  | _ =>
    obtain rfl := eq_of_rank_eq (by decide) hb
    exact absurd hab (by rw [before_irrefl]; exact Bool.false_ne_true)

theorem before_total {a b : Ty} (hne : a ≠ b) (h : a.before b = false) : b.before a = true := by
  by_cases hlt : b.rank < a.rank
  · exact before_of_rank_lt hlt
  have hr : b.rank = a.rank := by
    by_cases hgt : a.rank < b.rank
    · exact absurd (before_of_rank_lt hgt) (by rw [h]; exact Bool.false_ne_true)
    · omega
  clear hlt
  induction a generalizing b with
  | arrayOf a ih =>
    obtain ⟨b, rfl⟩ := eq_arrayOf_of_rank hr
    simp only [before] at h ⊢
    have hne' : a ≠ b := fun hab => hne (by rw [hab])
    by_cases hlt : b.rank < a.rank
    · exact before_of_rank_lt hlt
    by_cases hgt : a.rank < b.rank
    · exact absurd (before_of_rank_lt hgt) (by rw [h]; exact Bool.false_ne_true)
    exact ih hne' h (by omega)
  | «class» a =>
    obtain ⟨b, rfl⟩ := eq_class_of_rank hr
    simp only [before, decide_eq_true_eq, decide_eq_false_iff_not] at h ⊢
    exact String.not_le.mp fun hab => hne (by rw [String.le_antisymm hab (String.not_lt.mp h)])
  | closure a =>
    obtain ⟨b, rfl⟩ := eq_closure_of_rank hr
    simp only [before, decide_eq_true_eq, decide_eq_false_iff_not] at h ⊢
    exact String.not_le.mp fun hab => hne (by rw [String.le_antisymm hab (String.not_lt.mp h)])
  | _ => exact absurd (eq_of_rank_eq (by decide) hr).symm hne

end Ty

end PhpCheck
