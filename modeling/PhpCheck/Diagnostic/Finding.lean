import PhpCheck.Diagnostic.Basic
import PhpCheck.Site
import PhpCheck.TypeSet.Basic

/-!
# Findings

The things a run may find, and how each is worded. `LookupError` says why a name stands for nothing;
only a reference to something undefined is worth a report.
-/

namespace PhpCheck

/-- Why a name could not be tied to a symbol. -/
inductive LookupError where
  | undefinedFunction (name : String)
  | undefinedMethod (owner name : String)
  | undefinedClass (name : String)
  | undefinedConstant (name : String)
  | undefinedProperty (owner name : String)
  /-- The word `self`, `static` or `parent` where there is no class. -/
  | notInClass (word : String)
  | noParent (owner : String)
  /-- The name is computed when the program runs. -/
  | computedName
  /-- No class is known for an expression. -/
  | unknownClass
  deriving DecidableEq

namespace LookupError

/-- Whether something is named that is not declared. -/
def isUndefined : LookupError → Bool
  | .undefinedFunction _ | .undefinedMethod .. | .undefinedClass _ | .undefinedConstant _
  | .undefinedProperty .. => true
  | .notInClass _ | .noParent _ | .computedName | .unknownClass => false

def message : LookupError → String
  | .undefinedFunction name => "call to undefined function " ++ name ++ "()"
  | .undefinedMethod owner name => "call to undefined method " ++ owner ++ "::" ++ name ++ "()"
  | .undefinedClass name => "reference to undefined class " ++ name
  | .undefinedConstant name => "reference to undefined constant " ++ name
  | .undefinedProperty owner name => "reference to undefined property " ++ owner ++ "::$" ++ name
  | .notInClass word => "cannot use '" ++ word ++ "' outside of a class"
  | .noParent owner => "class " ++ owner ++ " has no parent"
  | .computedName => "name is computed at runtime"
  | .unknownClass => "expression does not have a known class type"

end LookupError

inductive Side where
  | left
  | right
  deriving DecidableEq

/-- Something found in a program. -/
inductive Finding where
  | undefinedReference (error : LookupError)
  /-- One operand of an arithmetic operator is an array and the other is not. -/
  | lonelyArray (side : Side)
  | scalarForeach (type : TypeSet)
  | arrayToString
  | noOp (description : String)
  | returnMismatch (name : String) (expected found : TypeSet)
  | tooFewArguments (count : Nat) (name : String) (required : Nat)
  | tooManyArguments (count : Nat) (name : String) (accepted : Nat)
  | argumentMismatch (position : Nat) (name : String) (expected found : TypeSet)
  | staticCall (name : String) (site : Site)
  | groupingRisk (expression : String)
  deriving DecidableEq

namespace Finding

def kind : Finding → DiagnosticKind
  | .undefinedReference _ => .undefinedReference
  | .noOp _ => .noOp
  | .staticCall .. => .staticCallError
  | .groupingRisk _ => .compatibilityRisk
  | _ => .typeError

def message : Finding → String
  | .undefinedReference error => error.message
  | .lonelyArray .left => "Invalid operator: left operand is array and right is not"
  | .lonelyArray .right => "Invalid operator: right operand is array and left is not"
  | .scalarForeach type => type.text ++ " passed to foreach instead of array"
  | .arrayToString => "array to string conversion"
  | .noOp description => "no-op " ++ description
  | .returnMismatch name expected found =>
    "return type of '" ++ name ++ "': expected " ++ expected.text ++ ", found " ++ found.text
  | .tooFewArguments count name required =>
    "call with " ++ toString count ++ " arguments to '" ++ name ++ "' which requires " ++
      toString required
  | .tooManyArguments count name accepted =>
    "call with " ++ toString count ++ " arguments to '" ++ name ++ "' which only takes " ++
      toString accepted
  | .argumentMismatch position name expected found =>
    "argument " ++ toString position ++ " to '" ++ name ++ "': expected " ++ expected.text ++
      ", found " ++ found.text
  | .staticCall name site =>
    "static call to non-static method " ++ name ++ " defined at " ++ site.text
  | .groupingRisk expression => "Expression may not be PHP 7 compatible: " ++ expression ++ "[]"

def diagnosticAt (finding : Finding) (file : String) (line : Line) : Diagnostic :=
  ⟨finding.kind, finding.message, file, line⟩

end Finding

end PhpCheck
