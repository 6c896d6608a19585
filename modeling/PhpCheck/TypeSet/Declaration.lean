import PhpCheck.Text.Blank
import PhpCheck.Text.Split
import PhpCheck.TypeSet.Basic

/-!
# Declared types

A declared type is written as parts with bars between them. A part is a word with any number of
`[]` behind it and possibly a `?` in front, which also admits `null`. `self` and `static` stand for
the declaring class.
-/

namespace PhpCheck

/-- Why an input could not be loaded. -/
inductive LoadError where
  /-- A part of a declared type is not a type; the text is the part without its marks. -/
  | invalidType (word : String)
  /-- A document is not the JSON form of a unit. -/
  | document
  deriving DecidableEq

def LoadError.message : LoadError → String
  | .invalidType word => "invalid type expression '" ++ word ++ "'"
  | .document => "invalid input document"

namespace Ty

/-- The type that a lower-case word is reserved for. -/
def ofKeyword? : String → Option Ty
  | "int" | "integer" => some .int
  | "float" | "double" => some .float
  | "string" => some .string
  | "bool" | "boolean" | "true" | "false" => some .bool
  | "null" => some .null
  | "array" => some .array
  | "mixed" => some .mixed
  | "callable" => some .callable
  | "object" => some .object
  | "void" => some .void
  | "resource" => some .resource
  | _ => none

/-- Whether a character may stand in a class name. -/
def isNameChar (c : Char) : Bool := c.isAlphanum || c == '_' || c == '\\'

/-- Whether a word may be read as a class name. -/
def isClassName (word : List Char) : Bool :=
  word.all isNameChar &&
    match word with
    | [] => false
    | first :: _ => !first.isDigit

/-- The type that a word without marks stands for. -/
def ofWord (word : List Char) : Except LoadError Ty :=
  match ofKeyword? (Text.lowered (String.ofList word)) with
  | some type => .ok type
  | none =>
    if isClassName word then .ok (ofClass (String.ofList word))
    else .error (.invalidType (String.ofList word))

/-- The type that a word written backwards stands for: each `[]` that ends the word makes an array
of what stands in front. -/
def ofReversed : List Char → Except LoadError Ty
  | ']' :: '[' :: rest => arrayOf <$> ofReversed rest
  | rest => ofWord rest.reverse

/-- The type that a word with its `[]` marks stands for. -/
def parse (word : List Char) : Except LoadError Ty := ofReversed word.reverse

end Ty

namespace TypeSet

/-- Whether a word stands for the declaring class. -/
def isOwnClass (word : List Char) : Bool :=
  match Text.lowered (String.ofList word) with
  | "self" | "static" => true
  | _ => false

/-- The type that a part without its `?` stands for, in a declaration of class `owner`. -/
def parseWord (owner : Option String) (word : List Char) : Except LoadError Ty :=
  match owner with
  | some name => if isOwnClass word then .ok (.ofClass name) else Ty.parse word
  | none => Ty.parse word

/-- The types that a part admits. -/
def parsePart (owner : Option String) : List Char → Except LoadError (List Ty)
  | '?' :: word => do return [← parseWord owner word, .null]
  | word => do return [← parseWord owner word]

/-- The parts of a declaration: what stands between the bars, without the blanks around it; empty
parts say nothing. -/
def declarationParts (raw : String) : List (List Char) :=
  ((Text.pieces '|' raw.toList).map Text.trim).filter fun part => !part.isEmpty

/-- The type that a declaration stands for, in a declaration of class `owner` if there is one. The
first part that is no type is the error. -/
def parse (raw : String) (owner : Option String) : Except LoadError TypeSet := do
  let parts ← (declarationParts raw).mapM (parsePart owner)
  return ofList parts.flatten

end TypeSet

end PhpCheck
