/-!
# The shortest decimal of a float

A finite float is `m * 2 ^ q` for natural `m`. The reals that round to it form an interval, whose
ends belong to it when `m` is even. `shortest` gives the decimal with the fewest digits in that
interval, and of two such decimals the one nearer to the float.
-/

namespace PhpCheck.Numeral

/-- A positive number `digits * 10 ^ exponent`. -/
structure Decimal where
  digits : Nat
  exponent : Int
  deriving DecidableEq

/-- The absolute value of a finite float as significand and power of two. -/
def magnitude (x : Float) : Nat × Int :=
  let bits := x.toBits.toNat
  let fraction : Nat := bits % Nat.pow 2 52
  let exponent : Nat := bits / Nat.pow 2 52 % Nat.pow 2 11
  if exponent = 0 then (fraction, -1074) else (Nat.pow 2 52 + fraction, (exponent : Int) - 1075)

/-- Whether the sign bit of a float is set. -/
def isNegative (x : Float) : Bool := x.toBits.toNat / Nat.pow 2 63 = 1

/-- Numerator and denominator of `base ^ exponent`. -/
def power (base : Nat) (exponent : Int) : Nat × Nat :=
  (base.pow exponent.toNat, base.pow (-exponent).toNat)

/-- The multiples of `10 ^ place` next to `m * 2 ^ q` that round to it, the nearest first. All
quantities are measured in quarters of `2 ^ q`, in which the interval reaches two upward, and one or
two downward. -/
def onGrid (m : Nat) (q place : Int) : List Nat :=
  let (n, d) := power 2 (q - 2)
  let (gn, gd) := power 10 place
  let unit := n * gd
  let grid := d * gn
  let below := if m = Nat.pow 2 52 ∧ -1074 < q then 4 * m - 1 else 4 * m - 2
  let inside (c : Nat) : Bool :=
    if m % 2 = 0 then below * unit ≤ c * grid && c * grid ≤ (4 * m + 2) * unit
    else below * unit < c * grid && c * grid < (4 * m + 2) * unit
  let low := 4 * m * unit / grid
  let candidates :=
    if 2 * (4 * m * unit - low * grid) ≤ grid then [low, low + 1] else [low + 1, low]
  candidates.filter fun c => 0 < c && inside c

/-- The first place from `place` downward whose grid has a decimal for the number. -/
def search (m : Nat) (q : Int) : Nat → Int → Option Decimal
  | 0, _ => none
  | fuel + 1, place =>
    match onGrid m q place with
    | c :: _ => some ⟨c, place⟩
    | [] => search m q fuel (place - 1)

/-- The shortest decimal for the absolute value of a finite float; none for zero. -/
def shortest (x : Float) : Option Decimal :=
  let (m, q) := magnitude x
  if m = 0 then none else search m q 700 310

/-- A decimal in writing: positional when its point falls within sixteen digits before or five
zeros after it, with a power of ten otherwise. -/
def Decimal.text (x : Decimal) : String :=
  let digits := Nat.toDigits 10 x.digits
  let point := (digits.length : Int) + x.exponent
  if 0 ≤ x.exponent ∧ point ≤ 16 then
    String.ofList (digits ++ List.replicate x.exponent.toNat '0') ++ ".0"
  else if 0 < point ∧ point ≤ 16 then
    String.ofList (digits.take point.toNat) ++ "." ++ String.ofList (digits.drop point.toNat)
  else if -5 < point ∧ point ≤ 0 then
    "0." ++ String.ofList (List.replicate (-point).toNat '0' ++ digits)
  else
    let power := toString (point - 1)
    match digits with
    | [d] => String.ofList [d] ++ "e" ++ power
    | d :: rest => String.ofList [d] ++ "." ++ String.ofList rest ++ "e" ++ power
    | [] => "0.0"

def floatText (x : Float) : String :=
  (if isNegative x then "-" else "") ++
    match shortest x with
    | some decimal => decimal.text
    | none => "0.0"

end PhpCheck.Numeral
