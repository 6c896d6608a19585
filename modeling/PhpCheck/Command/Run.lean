import PhpCheck.Analysis.Run
import PhpCheck.Command.Disk
import PhpCheck.Command.Options
import PhpCheck.Report
import PhpCheck.Settings.Toml

/-!
# The command

Reads the settings and the syntax trees that the arguments name, analyzes them as one program and
writes a report. What is read is left to a `Disk`, and what is written is part of the result, so that
the command is the same function on a file system that is a value.
-/

namespace PhpCheck.Command

def versionText : String := "hackle 0.1.0"

/-- The configuration file that is read if it is in the working folder and no other is named. -/
def defaultConfig : String := "hackle.toml"

/-- Why the command fails. -/
inductive CommandError where
  | unreadable (path : String) (cause : DiskError)
  | invalidSettings (path : String)
  | inaccessible (path : String) (cause : DiskError)
  | noDocuments
  | invalidDocument (path : String)
  | invalidDeclarations (cause : LoadError)
  | fault (fault : Fault)
  | errorsFound (count : Nat)
  deriving DecidableEq

namespace CommandError

/-- The wording, without the cause. -/
def message : CommandError → String
  | .unreadable path _ => "failed to read " ++ path
  | .invalidSettings path => "invalid configuration in " ++ path
  | .inaccessible path _ => "failed to access " ++ path
  | .noDocuments => "no JSON syntax-tree documents found"
  | .invalidDocument path => "failed to load " ++ path
  | .invalidDeclarations _ => "failed to collect declarations"
  | .fault (.notAssignable line) => "nothing can be assigned on line " ++ toString line.toNat
  | .fault (.endlessNesting key) => key.text ++ " is declared inside itself"
  | .errorsFound count => "analysis found " ++ toString count ++ " error(s)"

/-- The wording of what lies behind the failure. -/
def cause? : CommandError → Option String
  | .unreadable _ cause | .inaccessible _ cause => some cause.message
  | .invalidDeclarations cause => some cause.message
  | _ => none

/-- The report on the failure. The lines of a cause are indented. -/
def report (error : CommandError) : String :=
  let cause := match error.cause? with
    | some text =>
      "\n\nCaused by:\n    " ++
        "\n    ".intercalate ((Text.pieces '\n' text.toList).map String.ofList)
    | none => ""
  "Error: " ++ error.message ++ cause ++ "\n"

def status : CommandError → UInt32
  | .fault _ => 101
  | _ => 1

end CommandError

/-- How the command ends: the exit status, and what it writes to the two output streams. -/
structure Ending where
  status : UInt32
  out : String := ""
  err : String := ""
  deriving DecidableEq

variable {m : Type → Type} [Monad m]

/-- The settings of the configuration file, which has to exist if the options name it. -/
def configured (disk : Disk m) (options : Options) : ExceptT CommandError m Settings := do
  let path ← match options.config with
    | some path => pure (some path)
    | none => do
      let path := Path.join (← disk.workingFolder) defaultConfig
      match ← disk.kindOf path with
      | .ok .file => pure (some path)
      | _ => pure none
  match path with
  | none => return {}
  | some path =>
    match ← disk.read path with
    | .error cause => throw (.unreadable path cause)
    | .ok text =>
      match Settings.ofToml text with
      | some settings => return settings
      | none => throw (.invalidSettings path)

/-- Whether a file in a folder is taken for a document. -/
def isDocument (path : String) : Bool :=
  match (Path.segments path).getLast? with
  | some name => Path.extension? name == some "json"
  | none => false

/-- The documents that an input stands for: itself, or all that are in a folder. -/
def documentsOf (disk : Disk m) (input : String) : ExceptT CommandError m (List String) := do
  match ← disk.kindOf input with
  | .error cause => throw (.inaccessible input cause)
  | .ok .file => return [input]
  | .ok .folder => return (← disk.filesBelow input).filter isDocument

/-- The unit of a document. The text of the file that it names goes before the text that it brings
along. -/
def loadUnit (disk : Disk m) (path : String) : ExceptT CommandError m SourceUnit := do
  match ← disk.read path with
  | .error cause => throw (.unreadable path cause)
  | .ok text =>
    match SourceUnit.parse text with
    | .error _ => throw (.invalidDocument path)
    | .ok unit =>
      match ← disk.read unit.path with
      | .ok source => return { unit with source := some source }
      | .error _ => return unit

/-- The diagnostics of the program that the options name, with its source texts. -/
def analyze (disk : Disk m) (options : Options) :
    ExceptT CommandError m (SourceTexts × DiagnosticLog) := do
  let settings := options.settings (← configured disk options)
  let documents ← options.inputs.mapM (documentsOf disk)
  let paths := Path.sorted documents.flatten
  if paths.isEmpty then throw .noDocuments
  let units ← paths.mapM (loadUnit disk)
  let texts := SourceTexts.ofUnits units
  match analyzeUnits { settings, sources := texts } units with
  | .error (.load cause) => throw (.invalidDeclarations cause)
  | .error (.fault fault) => throw (.fault fault)
  | .ok outcome => return (texts, outcome.log)

/-- The ending after an analysis: a failure if there are errors. -/
def Ending.ofLog (format : Format) (folder : String) (sources : Sources) (log : DiagnosticLog) :
    Ending :=
  let written : Ending := match format with
    | .json => { status := 0, out := log.jsonReport }
    | .text => { status := 0, err := log.textReport sources folder }
  if log.hasErrors then
    let error := CommandError.errorsFound log.errorCount
    { written with status := error.status, err := written.err ++ error.report }
  else written

def run (disk : Disk m) (arguments : List String) : m Ending := do
  match Options.parse arguments with
  | .error .version => return { status := 0, out := versionText ++ "\n" }
  | .error .usage =>
    return { status := 2, err := "error: the arguments are not in order\n" }
  | .ok options =>
    match ← (analyze disk options).run with
    | .error error => return { status := error.status, err := error.report }
    | .ok (texts, log) =>
      return .ofLog (options.format.getD .text) (← disk.workingFolder) texts log

end PhpCheck.Command
