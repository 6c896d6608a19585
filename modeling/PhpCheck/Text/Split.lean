/-!
# Cutting text into pieces

Splitting at a separating character, looking for a pattern, and the physical lines of a text.
-/

namespace PhpCheck.Text

/-- The pieces between the occurrences of `separator`; always one more than there are of it. -/
def pieces (separator : Char) : List Char → List (List Char)
  | [] => [[]]
  | c :: rest =>
    match pieces separator rest with
    | [] => [[c]]
    | piece :: more => if c = separator then [] :: piece :: more else (c :: piece) :: more

/-- Whether `pattern` occurs somewhere in the text. -/
def occurs (pattern : List Char) : List Char → Bool
  | [] => pattern.isEmpty
  | c :: rest => pattern.isPrefixOf (c :: rest) || occurs pattern rest

/-- The text without a carriage return at its end. -/
def withoutReturn (line : List Char) : List Char :=
  match line.reverse with
  | '\r' :: rest => rest.reverse
  | _ => line

/-- Lines as `pieces` leaves them: each but the last ended at a line feed, and the last one is no
line when it is empty. -/
def endedLines : List (List Char) → List (List Char)
  | [] => []
  | [last] => if last.isEmpty then [] else [last]
  | line :: more => withoutReturn line :: endedLines more

/-- The physical lines of a text. A line ends at a line feed, together with a carriage return
right in front of it; a text does not end with an empty line. -/
def lines (text : String) : List String :=
  (endedLines (pieces '\n' text.toList)).map String.ofList

end PhpCheck.Text
