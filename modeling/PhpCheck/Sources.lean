import PhpCheck.Node.Basic
import PhpCheck.Table
import PhpCheck.Text.Split

/-!
# Source texts

A run only asks for single lines of the texts that the syntax trees came from. Any `Sources` can give
them, among others the texts themselves, filed by the names of their files.
-/

namespace PhpCheck

/-- The line with a number, counted from one, of a text. -/
def lineOf? (text : String) (line : Line) : Option String :=
  if line = 0 then none else (Text.lines text)[line.toNat - 1]?

/-- What gives the lines of source texts: the line of a file, if it is known. -/
structure Sources where
  line? : String → Line → Option String

/-- No line is known. -/
instance : EmptyCollection Sources := ⟨⟨fun _ _ => none⟩⟩

/-- Source texts by file. -/
abbrev SourceTexts := Table String

/-- A line is known if the text of the file is, and is long enough. -/
def SourceTexts.sources (texts : SourceTexts) : Sources where
  line? file line := texts.get? file >>= (lineOf? · line)

instance : Coe SourceTexts Sources := ⟨SourceTexts.sources⟩

end PhpCheck
