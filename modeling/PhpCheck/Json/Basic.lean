/-!
# JSON values

A `Json` is what a JSON text spells. The grammar admits numerals and strings that denote nothing: a
numeral beyond the range of floats, and a string with an escape for half a surrogate pair. They are
kept as `none`, so that a reader may pass over them where it does not look at the value.
-/

namespace PhpCheck

/-- The number that a numeral denotes. -/
inductive Number where
  /-- A numeral without point and exponent, in the range of 64-bit integers. -/
  | integer (value : Int)
  /-- Any other numeral. -/
  | float (value : Float)

/-- A JSON value. An object keeps its members in the order of the text, repeated keys included. -/
inductive Json where
  | null
  | bool (value : Bool)
  | number (value : Option Number)
  | string (value : Option String)
  | array (items : List Json)
  | object (members : List (Option String × Json))

namespace Json

instance : Inhabited Json := ⟨.null⟩

def text (s : String) : Json := .string (some s)

def integer (n : Int) : Json := .number (some (.integer n))

def record (members : List (String × Json)) : Json :=
  .object (members.map fun member => (some member.1, member.2))

mutual

/-- How deep arrays and objects are nested in a value. -/
def depth : Json → Nat
  | .array items => itemsDepth items + 1
  | .object members => membersDepth members + 1
  | _ => 0

def itemsDepth : List Json → Nat
  | [] => 0
  | item :: rest => max item.depth (itemsDepth rest)

def membersDepth : List (Option String × Json) → Nat
  | [] => 0
  | (_, value) :: rest => max value.depth (membersDepth rest)

end

mutual

/-- Whether every numeral and string in a value denotes something. -/
def isDefinite : Json → Bool
  | .number value => value.isSome
  | .string value => value.isSome
  | .array items => areDefinite items
  | .object members => membersDefinite members
  | _ => true

def areDefinite : List Json → Bool
  | [] => true
  | item :: rest => item.isDefinite && areDefinite rest

def membersDefinite : List (Option String × Json) → Bool
  | [] => true
  | (key, value) :: rest => key.isSome && value.isDefinite && membersDefinite rest

end

end Json

end PhpCheck
