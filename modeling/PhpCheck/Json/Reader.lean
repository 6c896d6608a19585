import PhpCheck.Json.Basic

/-!
# Reading JSON text

`Json.parse` reads one strict JSON value with blanks around it. A numeral with a point or an exponent
is read in two roundings: its significand, of which the leading digits that fit in 64 bits are kept,
becomes a float, and that float is scaled by a power of ten.
-/

namespace PhpCheck.Json

/-! ### Numerals -/

/-- The digits of a numeral as they are taken into a 64-bit significand, and those left over when the
next one does not fit. -/
def absorb (significand : Nat) : List Nat → Nat × List Nat
  | [] => (significand, [])
  | d :: rest =>
    if significand * 10 + d < UInt64.size then absorb (significand * 10 + d) rest
    else (significand, d :: rest)

/-- The float nearest to `10 ^ n`. -/
def powerOfTen (n : Nat) : Float := Float.ofScientific 1 false n

/-- A float divided by `10 ^ n`, in steps of at most `10 ^ 308`. -/
def scaleDown (x : Float) (n : Nat) : Float :=
  if n ≤ 308 then x / powerOfTen n
  else if x == 0 then x
  else scaleDown (x / powerOfTen 308) (n - 308)
termination_by n

/-- The float `significand * 10 ^ exponent`, unless it is beyond the range of floats. -/
def scaled (significand : Nat) (exponent : Int) : Option Float :=
  let x := significand.toUInt64.toFloat
  match exponent with
  | .ofNat n =>
    if n ≤ 308 then
      let y := x * powerOfTen n
      if y.isInf then none else some y
    else if significand = 0 then some x
    else none
  | .negSucc n => some (scaleDown x (n + 1))

/-- A numeral as it is written. -/
structure Numeral where
  negative : Bool
  whole : List Nat
  /-- The digits after the point, if there is one. -/
  fraction : Option (List Nat)
  /-- The power of ten after the mark `e`, if there is one. -/
  exponent : Option Int

def Numeral.value (n : Numeral) : Option Number :=
  let (significand, cut) := absorb 0 n.whole
  let signed (x : Float) : Number := .float (if n.negative then -x else x)
  match n.fraction, n.exponent with
  | none, none =>
    if cut.isEmpty then
      if n.negative then
        if 0 < significand ∧ significand ≤ Nat.pow 2 63 then some (.integer (-significand))
        else some (signed significand.toUInt64.toFloat)
      else some (.integer significand)
    else (scaled significand cut.length).map signed
  | fraction, exponent =>
    let digits := fraction.getD []
    let (significand, rest) := absorb significand digits
    let place := (cut.length : Int) - (digits.length - rest.length : Nat)
    (scaled significand (place + exponent.getD 0)).map signed

def digit? (c : Char) : Option Nat :=
  if c.isDigit then some (c.toNat - '0'.toNat) else none

/-- The digits in front of a text, and the rest. -/
def digits (cs : List Char) : List Nat × List Char :=
  ((cs.takeWhile Char.isDigit).filterMap digit?, cs.dropWhile Char.isDigit)

/-- The whole part of a numeral: no zero in front of another digit. -/
def wholePart (cs : List Char) : Option (List Nat × List Char) :=
  match digits cs with
  | ([], _) => none
  | (0 :: _ :: _, _) => none
  | result => some result

/-- The fraction of a numeral, if a point comes next. -/
def fractionPart : List Char → Option (Option (List Nat) × List Char)
  | '.' :: rest =>
    match digits rest with
    | ([], _) => none
    | (ds, rest) => some (some ds, rest)
  | rest => some (none, rest)

/-- The exponent of a numeral, if its mark comes next. -/
def exponentPart (cs : List Char) : Option (Option Int × List Char) :=
  let read (negative : Bool) (rest : List Char) : Option (Option Int × List Char) :=
    match digits rest with
    | ([], _) => none
    | (ds, rest) =>
      let value : Nat := ds.foldl (fun n d => n * 10 + d) 0
      some (some (if negative then -value else value), rest)
  let signed : List Char → Option (Option Int × List Char)
    | '+' :: rest => read false rest
    | '-' :: rest => read true rest
    | rest => read false rest
  match cs with
  | 'e' :: rest => signed rest
  | 'E' :: rest => signed rest
  | rest => some (none, rest)

def unsignedNumeral (negative : Bool) (cs : List Char) : Option (Numeral × List Char) := do
  let (whole, rest) ← wholePart cs
  let (fraction, rest) ← fractionPart rest
  let (exponent, rest) ← exponentPart rest
  return (⟨negative, whole, fraction, exponent⟩, rest)

/-- The numeral in front of a text. -/
def numeral : List Char → Option (Numeral × List Char)
  | '-' :: rest => unsignedNumeral true rest
  | rest => unsignedNumeral false rest

/-! ### Strings -/

/-- An element of a quoted string: a character that stands for itself, or the unit of an escape. -/
inductive StringUnit where
  | plain (c : Char)
  | escape (unit : Nat)

def hexDigit? (c : Char) : Option Nat :=
  if c.isDigit then some (c.toNat - '0'.toNat)
  else if 'a' ≤ c ∧ c ≤ 'f' then some (c.toNat - 'a'.toNat + 10)
  else if 'A' ≤ c ∧ c ≤ 'F' then some (c.toNat - 'A'.toNat + 10)
  else none

/-- The number that four hexadecimal digits denote. -/
def hexUnit? (a b c d : Char) : Option Nat :=
  return (((← hexDigit? a) * 16 + (← hexDigit? b)) * 16 + (← hexDigit? c)) * 16 + (← hexDigit? d)

/-- The character for which a backslash and a single character stand. -/
def escaped? : Char → Option Char
  | '"' => some '"'
  | '\\' => some '\\'
  | '/' => some '/'
  | 'b' => some '\x08'
  | 'f' => some '\x0c'
  | 'n' => some '\n'
  | 'r' => some '\r'
  | 't' => some '\t'
  | _ => none

/-- The elements of a string up to its closing quote, and what follows the quote. -/
def stringUnits : List Char → List StringUnit → Option (List StringUnit × List Char)
  | [], _ => none
  | '"' :: rest, done => some (done.reverse, rest)
  | '\\' :: 'u' :: a :: b :: c :: d :: rest, done =>
    match hexUnit? a b c d with
    | some unit => stringUnits rest (.escape unit :: done)
    | none => none
  | '\\' :: c :: rest, done =>
    match escaped? c with
    | some c => stringUnits rest (.plain c :: done)
    | none => none
  | c :: rest, done => if c.toNat < 0x20 then none else stringUnits rest (.plain c :: done)

/-- The text that the elements of a string denote; an escape for half a surrogate pair has to be
followed by one for the other half. -/
def joinUnits : List StringUnit → List Char → Option String
  | [], done => some (String.ofList done.reverse)
  | .plain c :: rest, done => joinUnits rest (c :: done)
  | .escape high :: .escape low :: rest, done =>
    if 0xD800 ≤ high ∧ high < 0xDC00 then
      if 0xDC00 ≤ low ∧ low < 0xE000 then
        joinUnits rest (Char.ofNat ((high - 0xD800) * 0x400 + (low - 0xDC00) + 0x10000) :: done)
      else none
    else if 0xDC00 ≤ high ∧ high < 0xE000 then none
    else joinUnits (.escape low :: rest) (Char.ofNat high :: done)
  | .escape unit :: rest, done =>
    if 0xD800 ≤ unit ∧ unit < 0xE000 then none else joinUnits rest (Char.ofNat unit :: done)

/-- The string after an opening quote. -/
def quoted (cs : List Char) : Option (Option String × List Char) := do
  let (units, rest) ← stringUnits cs []
  return (joinUnits units [], rest)

/-! ### Values -/

def skipBlanks (cs : List Char) : List Char :=
  cs.dropWhile fun c => c == ' ' || c == '\n' || c == '\t' || c == '\r'

mutual

/-- The value in front of a text. -/
def value : Nat → List Char → Option (Json × List Char)
  | 0, _ => none
  | fuel + 1, cs =>
    match skipBlanks cs with
    | 'n' :: 'u' :: 'l' :: 'l' :: rest => some (.null, rest)
    | 't' :: 'r' :: 'u' :: 'e' :: rest => some (.bool true, rest)
    | 'f' :: 'a' :: 'l' :: 's' :: 'e' :: rest => some (.bool false, rest)
    | '"' :: rest => do
      let (s, rest) ← quoted rest
      return (.string s, rest)
    | '[' :: rest =>
      match skipBlanks rest with
      | ']' :: rest => some (.array [], rest)
      | rest => do
        let (items, rest) ← items fuel rest
        return (.array items, rest)
    | '\x7b' :: rest =>
      match skipBlanks rest with
      | '\x7d' :: rest => some (.object [], rest)
      | rest => do
        let (members, rest) ← members fuel rest
        return (.object members, rest)
    | rest => do
      let (n, rest) ← numeral rest
      return (.number n.value, rest)

/-- The items of an array up to its closing bracket. -/
def items : Nat → List Char → Option (List Json × List Char)
  | 0, _ => none
  | fuel + 1, cs => do
    let (item, rest) ← value fuel cs
    match skipBlanks rest with
    | ',' :: rest =>
      let (more, rest) ← items fuel rest
      return (item :: more, rest)
    | ']' :: rest => return ([item], rest)
    | _ => none

/-- The members of an object up to its closing brace. -/
def members : Nat → List Char → Option (List (Option String × Json) × List Char)
  | 0, _ => none
  | fuel + 1, cs =>
    match skipBlanks cs with
    | '"' :: rest => do
      let (key, rest) ← quoted rest
      match skipBlanks rest with
      | ':' :: rest =>
        let (item, rest) ← value fuel rest
        match skipBlanks rest with
        | ',' :: rest =>
          let (more, rest) ← members fuel rest
          return ((key, item) :: more, rest)
        | '\x7d' :: rest => return ([(key, item)], rest)
        | _ => none
      | _ => none
    | _ => none

end

/-- The value that a text spells, if it is one JSON value with blanks around it. -/
def parse (text : String) : Option Json := do
  let cs := text.toList
  let (json, rest) ← value (2 * cs.length + 2) cs
  if (skipBlanks rest).isEmpty then some json else none

end PhpCheck.Json
