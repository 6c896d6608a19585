import PhpCheck.Node.Basic
import PhpCheck.Text.Case
import PhpCheck.TypeSet.Basic

/-!
# Types of constant expressions

The types that can be told without knowing anything about the program: those of literals and of the
constants of the language.
-/

namespace PhpCheck

def Literal.type : Literal → Ty
  | .int _ => .int
  | .float _ => .float
  | .string _ => .string
  | .bool _ => .bool
  | .null => .null

/-- The type of a constant of the language. -/
def languageConstant? (name : String) : Option Ty :=
  match Text.canonical name with
  | "true" | "false" => some .bool
  | "null" => some .null
  | _ => none

/-- The type of a default or of the value of a constant, as far as it is plain from the expression. -/
def constantType : Node → TypeSet
  | ⟨_, .literal value⟩ => .of value.type
  | ⟨_, .array _⟩ => .of .array
  | ⟨_, .const name⟩ => ((languageConstant? name).map TypeSet.of).getD ∅
  | ⟨_, .unary .negate operand⟩ | ⟨_, .unary .plus operand⟩ => constantType operand
  | _ => ∅

end PhpCheck
