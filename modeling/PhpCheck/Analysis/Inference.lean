import PhpCheck.Analysis.Session

/-!
# Types of expressions in a run

A run finds the types that `infer` gives, and reports the faulty operators as it comes to them. Where only
the type of an expression is wanted, an empty log takes the place of the log of the run, which is put back
afterwards.
-/

namespace PhpCheck

/-- Runs an action on an empty log, and puts the old log back. -/
def Session.quietly {α : Type} (session : Session) (action : Analysis α) :
    Except Fault (α × Session) := do
  let (result, after) ← action.run { session with log := ∅ }
  return (result, { after with log := session.log })

namespace Analysis

/-- The result of an action that may record findings, but changes nothing else. What it records is
lost. -/
def quietly {α : Type} (action : Analysis α) : Analysis α :=
  look fun session =>
    match session.quietly action with
    | .ok (result, _) => done result
    | .error f => fault f

mutual

/-- The type of an expression, with a report of the faulty operators that are met in finding it. -/
def inferring (s : SymbolTable) (context : Context) : Node → Analysis TypeSet
  | ⟨_, .literal value⟩ => return .of value.type
  | ⟨_, .var (.literal name)⟩ => return Typing.ofVariable context name
  | ⟨_, .array items⟩ => return Typing.arrayLiteral (← inferringItems s context items)
  | ⟨_, .dim base _⟩ => return Typing.element (← inferring s context base)
  | ⟨_, .prop object (.literal name)⟩ => do
    let object ← quietly (inferring s context object)
    return s.propertyTypeOf object.classNames name
  | ⟨_, .staticProp reference (.literal name)⟩ =>
    match s.resolveClass context reference with
    | .ok owner => return s.propertyTypeOf [owner] name
    | .error _ => return ∅
  | ⟨_, .const name⟩ => return s.constantType name
  | ⟨_, .classConst reference name⟩ => return s.classConstantType context reference name
  | ⟨_, .call callee _⟩ => do
    let type ← quietly (inferring s context callee)
    return s.returnTypeOf (s.calleesOf context callee type)
  | ⟨_, .methodCall receiver (.literal method) _⟩ => do
    let receiver ← quietly (inferring s context receiver)
    return s.returnTypeOf (receiver.classNames.filterMap fun owner => s.findMethod owner method)
  | ⟨_, .staticCall reference (.literal method) _⟩ =>
    match s.resolveClass context reference with
    | .ok owner => return s.returnTypeOf (s.findMethod owner method).toList
    | .error _ => return ∅
  | ⟨_, .new reference _⟩ => return s.newType context reference
  | ⟨_, .instanceOf _ _⟩ => return .of .bool
  | ⟨line, .binary operator left right⟩ => do
    let left ← inferring s context left
    let right ← inferring s context right
    let (type, faulty) := Typing.binary operator left right
    match faulty with
    | some side => reportAt context.file line (.lonelyArray side)
    | none => pure ()
    return type
  | ⟨_, .unary operator operand⟩ => return Typing.unary operator (← inferring s context operand)
  | ⟨_, .cast target _⟩ => return .of (Typing.cast target)
  | ⟨_, .conditional _ (some consequent) otherwise⟩ => do
    let consequent ← inferring s context consequent
    return consequent.merge (← inferring s context otherwise)
  | ⟨_, .conditional condition none otherwise⟩ => do
    let condition ← inferring s context condition
    return condition.merge (← inferring s context otherwise)
  | ⟨line, .closure _⟩ => return .of (.closure (CallableKey.closureName context.file line))
  | ⟨_, .assign _ value⟩ | ⟨_, .assignRef _ value⟩ => inferring s context value
  | ⟨_, .print _⟩ => return .of .int
  | _ => return ∅

/-- The types of the items of an array literal between them. -/
def inferringItems (s : SymbolTable) (context : Context) : List ArrayItem → Analysis TypeSet
  | [] => return ∅
  | ⟨_, value⟩ :: rest => do
    let first ← inferring s context value
    return first.merge (← inferringItems s context rest)

end

/-- The type of an expression, with a report of the faulty operators in it. -/
def typing (context : Context) (node : Node) : Analysis TypeSet := do
  inferring (← symbols) context node

/-- The type of an expression that is checked elsewhere. -/
def inferQuietly (context : Context) (node : Node) : Analysis TypeSet := quietly (typing context node)

end Analysis

end PhpCheck
