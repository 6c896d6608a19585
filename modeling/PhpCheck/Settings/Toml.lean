import PhpCheck.Settings.Basic
import PhpCheck.Text.Split

/-!
# Settings in a configuration file

A configuration file is a TOML document. All settings are truth values at the top level, so that a line
of a valid one is blank, a comment, or a key with a truth value. A key may stand in quotes; no key of a
setting needs an escape in them.
-/

namespace PhpCheck.Toml

/-- The text from the first character on that is neither a blank nor a tab. -/
def skipBlanks (cs : List Char) : List Char := cs.dropWhile fun c => c == ' ' || c == '\t'

/-- Whether a character may stand in a comment. -/
def isCommentChar (c : Char) : Bool := c == '\t' || (32 ≤ c.toNat && c.toNat != 127)

/-- Whether a line has nothing more than a comment. -/
def isBlankRest (cs : List Char) : Bool :=
  match skipBlanks cs with
  | [] => true
  | c :: rest => c == '#' && rest.all isCommentChar

/-- Whether a character may stand in a key without quotes. -/
def isBareKeyChar (c : Char) : Bool := c.isAlphanum || c == '_' || c == '-'

/-- The key up to the closing quote, and what follows it. -/
def quotedKey (quote : Char) (cs : List Char) : Option (String × List Char) :=
  match cs.span (· != quote) with
  | (key, _ :: rest) => some (String.ofList key, rest)
  | (_, []) => none

/-- The key at the front of a text, and what follows it. -/
def key (cs : List Char) : Option (String × List Char) :=
  match cs with
  | '"' :: rest => quotedKey '"' rest
  | '\x27' :: rest => quotedKey '\x27' rest
  | cs =>
    match cs.span isBareKeyChar with
    | ([], _) => none
    | (key, rest) => some (String.ofList key, rest)

/-- The truth value at the front of a text, and what follows it. -/
def truth : List Char → Option (Bool × List Char)
  | 't' :: 'r' :: 'u' :: 'e' :: rest => some (true, rest)
  | 'f' :: 'a' :: 'l' :: 's' :: 'e' :: rest => some (false, rest)
  | _ => none

/-- The key and value of a line that gives one. -/
def entry (line : List Char) : Option (String × Bool) := do
  let (key, afterKey) ← key (skipBlanks line)
  let '=' :: afterSign := skipBlanks afterKey | none
  let (value, rest) ← truth (skipBlanks afterSign)
  if isBlankRest rest then some (key, value) else none

/-- The entries of lines, if all lines are in order. -/
def entries : List (List Char) → Option (List (String × Bool))
  | [] => some []
  | line :: more =>
    if isBlankRest line then entries more
    else do return (← entry line) :: (← entries more)

end PhpCheck.Toml

namespace PhpCheck

/-- Reads settings from the text of a configuration file, which may start with a byte order mark. -/
def Settings.ofToml (text : String) : Option Settings := do
  let body := match text.toList with
    | '\uFEFF' :: rest => rest
    | cs => cs
  let entries ← Toml.entries (Text.endedLines (Text.pieces '\n' body))
  Settings.ofJson (.record (entries.map fun entry => (entry.1, .bool entry.2)))

end PhpCheck
