import PhpCheck.Json.Basic
import PhpCheck.Numeral.Shortest

/-!
# Writing JSON text

`Json.compact` writes a value without blanks, `Json.pretty` with one member to a line and two blanks
for each level. Only the quote, the backslash and control characters are escaped.
-/

namespace PhpCheck.Json

/-- The lower-case hexadecimal digit of a number below sixteen. -/
def hexDigit (n : Nat) : Char := Nat.digitChar n

/-- A character as it stands in a quoted string. -/
def escapeChar (c : Char) : List Char :=
  match c with
  | '"' => ['\\', '"']
  | '\\' => ['\\', '\\']
  | '\x08' => ['\\', 'b']
  | '\x0c' => ['\\', 'f']
  | '\n' => ['\\', 'n']
  | '\r' => ['\\', 'r']
  | '\t' => ['\\', 't']
  | c =>
    if c.toNat < 0x20 then ['\\', 'u', '0', '0', hexDigit (c.toNat / 16), hexDigit (c.toNat % 16)]
    else [c]

def quote (s : String) : String :=
  String.ofList ('"' :: s.toList.flatMap escapeChar ++ ['"'])

def numberText : Number → String
  | .integer n => toString n
  | .float x => Numeral.floatText x

mutual

/-- A value in writing, without blanks. -/
def compact : Json → String
  | .null => "null"
  | .bool true => "true"
  | .bool false => "false"
  | .number value => (value.map numberText).getD "null"
  | .string value => quote (value.getD "")
  | .array items => "[" ++ ",".intercalate (compactItems items) ++ "]"
  | .object members => "\x7b" ++ ",".intercalate (compactMembers members) ++ "\x7d"

def compactItems : List Json → List String
  | [] => []
  | item :: rest => item.compact :: compactItems rest

def compactMembers : List (Option String × Json) → List String
  | [] => []
  | (key, value) :: rest => (quote (key.getD "") ++ ":" ++ value.compact) :: compactMembers rest

end

/-- A line break with the blanks of a level after it. -/
def lineBreak (level : Nat) : String := "\n" ++ String.ofList (List.replicate (2 * level) ' ')

/-- Entries between brackets, one to a line. -/
def bracketed (level : Nat) (opening closing : String) (entries : List String) : String :=
  if entries.isEmpty then opening ++ closing
  else
    opening ++ lineBreak (level + 1) ++ ("," ++ lineBreak (level + 1)).intercalate entries ++
      lineBreak level ++ closing

mutual

/-- A value in writing at a level of indentation. -/
def prettyAt (level : Nat) : Json → String
  | .array items => bracketed level "[" "]" (prettyItems (level + 1) items)
  | .object members => bracketed level "\x7b" "\x7d" (prettyMembers (level + 1) members)
  | json => json.compact

def prettyItems (level : Nat) : List Json → List String
  | [] => []
  | item :: rest => item.prettyAt level :: prettyItems level rest

def prettyMembers (level : Nat) : List (Option String × Json) → List String
  | [] => []
  | (key, value) :: rest =>
    (quote (key.getD "") ++ ": " ++ value.prettyAt level) :: prettyMembers level rest

end

/-- A value in writing, indented. -/
def pretty (json : Json) : String := json.prettyAt 0

end PhpCheck.Json
