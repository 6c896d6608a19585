import PhpCheck.Diagnostic.Basic
import PhpCheck.Json.Writer
import PhpCheck.Path
import PhpCheck.Sources

/-!
# Reports

The diagnostics of a run in writing: for a reader, with the source lines that they are about, and as a
JSON document.
-/

namespace PhpCheck

/-- The mark in front of a diagnostic. -/
def Level.mark : Level → String
  | .error => "  -"
  | .warning => "  ~"

/-- A text with every tab written as four blanks. -/
def withoutTabs (text : String) : String :=
  String.ofList (text.toList.flatMap fun c => if c = '\t' then [' ', ' ', ' ', ' '] else [c])

namespace Diagnostic

/-- The lines of a report on a diagnostic. Absolute paths are written as seen from a folder, and the
source line is shown if it is known. -/
def reportLines (sources : Sources) (folder : String) (d : Diagnostic) : List String :=
  let heading := d.level.mark ++ " " ++ d.level.text ++ "[" ++ d.kind.label ++ "]: " ++ d.message
  let place := "     --> " ++ Path.seenFrom folder d.file ++ ":" ++ toString d.line.toNat
  let source := (sources.line? d.file d.line).map fun line => "      " ++ withoutTabs line
  heading :: place :: source.toList

def toJson (d : Diagnostic) : Json :=
  .record [("kind", .text d.kind.tag), ("level", .text d.level.text), ("message", .text d.message),
    ("file", .text d.file), ("line", .integer d.line.toNat)]

end Diagnostic

namespace DiagnosticLog

/-- The report on all diagnostics for a reader. -/
def textReport (sources : Sources) (folder : String) (log : DiagnosticLog) : String :=
  String.join ((log.entries.toList.flatMap (·.reportLines sources folder)).map (· ++ "\n"))

/-- The report on all diagnostics as a JSON document. -/
def jsonReport (log : DiagnosticLog) : String :=
  (Json.array (log.entries.toList.map Diagnostic.toJson)).pretty ++ "\n"

end DiagnosticLog

end PhpCheck
