import PhpCheck.Sources

/-!
# Index accesses that are grouped differently

Versions 5 and 7 of the language disagree on what an index after a variable variable or after a
computed property name belongs to. Braces on the line settle it.
-/

namespace PhpCheck

/-- What the outermost index access of a chain is finally taken of. -/
def innermostBase : Node → Node
  | ⟨_, .dim base _⟩ => innermostBase base
  | node => node

/-- The name at the end of a chain of variable variables, and the number of steps to it. -/
def indirection : Node → Option (Nat × String)
  | ⟨_, .var (.literal name)⟩ => some (0, name)
  | ⟨_, .var (.computed inner)⟩ => (indirection inner).map fun (steps, name) => (steps + 1, name)
  | _ => none

/-- A property name that is the value of a variable, in writing. -/
def computedProperty? (name : Name) : Option String :=
  match name with
  | .computed ⟨_, .var (.literal property)⟩ => some ("$" ++ property)
  | _ => none

/-- An expression in writing whose index access is ambiguous, and the test for a line with braces
that settle it. -/
structure Ambiguity where
  expression : String
  isSettledBy : List Char → Bool

/-- Whether braces settle an index after a variable variable. -/
def settlesVariable (line : List Char) : Bool := line.contains '\x7b' && line.contains '\x7d'

/-- Whether braces settle an index after a computed property name. -/
def settlesProperty (line : List Char) : Bool :=
  [['\x7d', '['], [']', '\x7d'], ['>', '\x7b'], [':', '\x7b']].any fun pattern =>
    Text.occurs pattern line

/-- The ambiguity of an index access on the given base. -/
def ambiguity? (base : Node) : Option Ambiguity :=
  match base.kind with
  | .var (.computed _) =>
    (indirection base).map fun (steps, name) =>
      ⟨String.ofList (List.replicate (steps + 1) '$') ++ name, settlesVariable⟩
  | .prop ⟨_, .var (.literal object)⟩ name =>
    (computedProperty? name).map fun property =>
      ⟨"$" ++ object ++ "->" ++ property, settlesProperty⟩
  | .staticProp ⟨_, .identifier owner⟩ name =>
    (computedProperty? name).map fun property =>
      ⟨owner ++ "::" ++ property, settlesProperty⟩
  | _ => none

/-- The expression of an index access that is grouped differently: its line is known and has no
braces that settle it. -/
def groupingRisk? (sources : Sources) (file : String) (node : Node) : Option String :=
  match node.kind with
  | .dim base _ => do
    let found ← ambiguity? (innermostBase base)
    let line ← sources.line? file node.line
    if found.isSettledBy line.toList then none else some found.expression
  | _ => none

end PhpCheck
