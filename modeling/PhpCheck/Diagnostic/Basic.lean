import PhpCheck.Node.Basic

/-!
# Diagnostics

What a run has to say about a program, in the order in which it was found. Code that is walked again
records with `pushOnce`, which leaves out what is already there.
-/

namespace PhpCheck

/-- How grave a diagnostic is. -/
inductive Level where
  | error
  | warning
  deriving DecidableEq

/-- What a diagnostic is about. -/
inductive DiagnosticKind where
  /-- Something that is named is not declared. -/
  | undefinedReference
  | typeError
  /-- An expression whose value is thrown away. -/
  | noOp
  /-- A method called without the object it needs. -/
  | staticCallError
  /-- A construct that versions of the language read differently. -/
  | compatibilityRisk
  deriving DecidableEq

namespace DiagnosticKind

def level : DiagnosticKind → Level
  | .undefinedReference | .typeError | .staticCallError => .error
  | .noOp | .compatibilityRisk => .warning

/-- The name of the kind in a text report. -/
def label : DiagnosticKind → String
  | .undefinedReference => "undefined"
  | .typeError => "type"
  | .noOp => "noop"
  | .staticCallError => "static-call"
  | .compatibilityRisk => "compat"

/-- The name of the kind in a JSON report. -/
def tag : DiagnosticKind → String
  | .undefinedReference => "undefined_reference"
  | .typeError => "type_error"
  | .noOp => "no_op"
  | .staticCallError => "static_call_error"
  | .compatibilityRisk => "compatibility_risk"

end DiagnosticKind

def Level.text : Level → String
  | .error => "error"
  | .warning => "warning"

/-- A message about a line of a file. -/
structure Diagnostic where
  kind : DiagnosticKind
  message : String
  file : String
  line : Line
  deriving DecidableEq

def Diagnostic.level (d : Diagnostic) : Level := d.kind.level

/-- The diagnostics of a run, oldest first, beside the set of them that tells whether one is new. -/
structure DiagnosticLog where
  entries : Array Diagnostic
  seen : List Diagnostic
  mem_seen : ∀ d, d ∈ seen ↔ d ∈ entries
  deriving DecidableEq

namespace DiagnosticLog

def empty : DiagnosticLog where
  entries := #[]
  seen := []
  mem_seen := by simp

instance : EmptyCollection DiagnosticLog := ⟨empty⟩

@[simp]
theorem entries_empty : (∅ : DiagnosticLog).entries = #[] := rfl

def push (log : DiagnosticLog) (d : Diagnostic) : DiagnosticLog where
  entries := log.entries.push d
  seen := log.seen.insert d
  mem_seen e := by rw [List.mem_insert_iff, Array.mem_push, log.mem_seen, or_comm]

/-- The log with an entry more, unless the same one has been seen. -/
def pushOnce (log : DiagnosticLog) (d : Diagnostic) : DiagnosticLog :=
  if log.seen.contains d then log else log.push d

/-- To ask the set is to search the entries. -/
theorem contains_seen (log : DiagnosticLog) (d : Diagnostic) :
    log.seen.contains d = log.entries.contains d := by
  rw [Bool.eq_iff_iff, List.contains_iff_mem, Array.contains_iff_mem, log.mem_seen]

def count (log : DiagnosticLog) (kind : DiagnosticKind) : Nat :=
  log.entries.countP fun d => d.kind == kind

def errorCount (log : DiagnosticLog) : Nat := log.entries.countP fun d => d.level == .error

def hasErrors (log : DiagnosticLog) : Bool := log.entries.any fun d => d.level == .error

end DiagnosticLog

end PhpCheck
