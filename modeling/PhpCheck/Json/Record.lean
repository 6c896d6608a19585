import PhpCheck.Json.Basic

/-!
# Records, lists and variants in JSON

How the parts of a document are laid out in JSON. A record is an object with the fields by name, in
which unknown keys are passed over, or an array of the fields in order. A variant is a bare tag, or
an object with the tag as its only key. Each array or object that is looked into takes up one level of
the room that a reader has.
-/

namespace PhpCheck.Json

/-- What a record says about a field. -/
inductive Slot where
  /-- The record gives a value. -/
  | given (value : Json)
  /-- The record is an object without that key. -/
  | absent
  /-- The record is an array that ends before that field. -/
  | cut

namespace Slot

variable {α : Type}

/-- A field that a record has to give. -/
def required (read : Json → Option α) : Slot → Option α
  | .given value => read value
  | _ => none

/-- A field with a value for records that do not give it. -/
def withDefault (read : Json → Option α) (default : α) : Slot → Option α
  | .given value => read value
  | _ => some default

end Slot

variable {α : Type}

/-- A value that may be null. -/
def nullable (read : Json → Option α) : Json → Option (Option α)
  | .null => some none
  | json => some <$> read json

/-- A field that may be null, and left out of an object. -/
def Slot.optional (read : Json → Option α) : Slot → Option (Option α)
  | .given value => nullable read value
  | .absent => some none
  | .cut => none

/-- The room left inside an array or object. -/
def enter : Nat → Option Nat
  | 0 => none
  | room + 1 => some room

/-- The value of a key among the members, if the key comes once or not at all. -/
def member? (members : List (Option String × Json)) (key : String) : Option Slot :=
  match members.filter fun member => member.1 == some key with
  | [] => some .absent
  | [member] => some (.given member.2)
  | _ => none

/-- The slots for fields in order, from the items of an array. -/
def positional : List String → List Json → Option (List Slot)
  | [], [] => some []
  | [], _ :: _ => none
  | _ :: names, [] => (.cut :: ·) <$> positional names []
  | _ :: names, item :: items => (.given item :: ·) <$> positional names items

/-- The fields of a record with the given names, in the order of the names. -/
def slots? (names : List String) : Json → Option (List Slot)
  | .object members =>
    if members.all fun member => member.1.isSome then names.mapM (member? members) else none
  | .array items => positional names items
  | _ => none

/-- The fields of a record and the room inside it. -/
def record? (room : Nat) (names : List String) (json : Json) : Option (Nat × List Slot) := do
  let inner ← enter room
  let slots ← json.slots? names
  return (inner, slots)

/-- The items of an array, each read with the room inside it. -/
def list? (room : Nat) (read : Nat → Json → Option α) : Json → Option (List α)
  | .array items => do
    let inner ← enter room
    items.mapM (read inner)
  | _ => none

/-- The tag of a variant, with its content and the room for it unless the tag is bare. -/
def variant? (room : Nat) : Json → Option (String × Option (Nat × Json))
  | .string (some tag) => some (tag, none)
  | .object [(some tag, content)] => do
    let inner ← enter room
    return (tag, some (inner, content))
  | _ => none

/-- The tag of a variant without content. -/
def tag? (room : Nat) (json : Json) : Option String :=
  match json.variant? room with
  | some (tag, none) => some tag
  | some (tag, some (_, .null)) => some tag
  | _ => none

def text? : Json → Option String
  | .string value => value
  | _ => none

def bool? : Json → Option Bool
  | .bool value => some value
  | _ => none

/-- An unsigned 64-bit integer. -/
def unsigned? : Json → Option UInt64
  | .number (some (.integer n)) =>
    if 0 ≤ n ∧ n.toNat < UInt64.size then some (UInt64.ofNat n.toNat) else none
  | _ => none

/-- A signed 64-bit integer. -/
def signed? : Json → Option Int64
  | .number (some (.integer n)) =>
    if Int64.minValue.toInt ≤ n ∧ n ≤ Int64.maxValue.toInt then some (Int64.ofInt n) else none
  | _ => none

/-- A float; an integer is rounded to one. -/
def float? : Json → Option Float
  | .number (some (.float x)) => some x
  | .number (some (.integer n)) =>
    some (if 0 ≤ n then (UInt64.ofNat n.toNat).toFloat else (Int64.ofInt n).toFloat)
  | _ => none

/-- A text or null. -/
def ofText? (s : Option String) : Json := (s.map text).getD .null

end PhpCheck.Json
