import PhpCheck.Typing.Constant
import PhpCheck.Typing.Lookup

/-!
# Types of expressions

`infer` gives the type that an expression has at a place of the program, together with the operators in
it that mix an array with something else. It changes nothing.
-/

namespace PhpCheck

/-- An arithmetic operator that has an array on one side only. -/
structure OperandFault where
  line : Line
  /-- The side with the array. -/
  side : Side
  deriving DecidableEq

/-- What is found out about an expression: its type, and the faulty operators in it in the order in
which they are evaluated. -/
structure Typing where
  type : TypeSet
  faults : List OperandFault := []

namespace Typing

/-- The result of an arithmetic operator on numbers. Nothing is known of it unless something is known
of both operands. -/
def arithmetic (operator : BinaryOp) (left right : TypeSet) : TypeSet :=
  if left.isEmpty || right.isEmpty then ∅
  else if operator = .modulo then .of .int
  else if operator ≠ .divide && left.isOnly .int && right.isOnly .int then .of .int
  else if left.contains .float || right.contains .float then .of .float
  else .ofList [.int, .float]

/-- The side of an arithmetic operator that has an array while the other side is known not to. -/
def lonelyArray? (left right : TypeSet) : Option Side :=
  match left.isArrayOnly, right.isArrayOnly with
  | true, false => if right.isEmpty then none else some .left
  | false, true => if left.isEmpty then none else some .right
  | _, _ => none

/-- The result of an operator with two operands, and the side at fault. -/
def binary (operator : BinaryOp) (left right : TypeSet) : TypeSet × Option Side :=
  if operator.isArithmetic then
    match lonelyArray? left right with
    | some side => (.of .array, some side)
    | none =>
      if operator = .add && left.isArrayOnly && right.isArrayOnly then (left.merge right, none)
      else (arithmetic operator left right, none)
  else
    match operator with
    | .concat => (.of .string, none)
    | .coalesce => (left.merge right, none)
    | .bitwiseAnd | .bitwiseOr | .bitwiseXor | .shiftLeft | .shiftRight => (.of .int, none)
    | _ => (.of .bool, none)

def unary (operator : UnaryOp) (operand : TypeSet) : TypeSet :=
  match operator with
  | .not => .of .bool
  | .bitwiseNot => .of .int
  | .negate | .plus =>
    if operand.isOnly .int || operand.isOnly .float then operand else .ofList [.int, .float]

def cast : CastTarget → Ty
  | .int => .int
  | .float => .float
  | .string => .string
  | .bool => .bool
  | .array => .array
  | .object => .object
  | .unset => .null

/-- The type of an array literal with items of the given types. -/
def arrayLiteral (elements : TypeSet) : TypeSet :=
  if elements.size = 1 then elements.asArray else .of .array

/-- The type of an element of a value; an element of a string is a string. -/
def element (base : TypeSet) : TypeSet :=
  if base.contains .string then base.elementTypes.insert .string else base.elementTypes

/-- The type of a variable; `this` stands for an object of the class around it. -/
def ofVariable (context : Context) (name : String) : TypeSet :=
  match context.find? name with
  | some v => v.type
  | none =>
    if name = "this" then (context.owner.map fun owner => TypeSet.of (.ofClass owner)).getD ∅ else ∅

end Typing

/-- The functions or closures that a call may go to, given the type of what is called. -/
def SymbolTable.calleesOf (s : SymbolTable) (context : Context) (callee : Node) (type : TypeSet) :
    List CallableKey :=
  match callee.kind with
  | .identifier name =>
    match s.resolveFunction name with
    | .ok key => [key]
    | .error _ => []
  | .closure _ => [.ofClosure context.file callee.line]
  | _ => (type.closureIds.map CallableKey.function).filter fun key => (s.callable? key).isSome

/-- The type of an object made by `new`. -/
def SymbolTable.newType (s : SymbolTable) (context : Context) (reference : Node) : TypeSet :=
  match s.resolveClass context reference, reference.kind with
  | .ok owner, _ => .of (.ofClass owner)
  | .error _, .identifier name => .of (.ofClass name)
  | .error _, _ => .of .object

def SymbolTable.constantType (s : SymbolTable) (name : String) : TypeSet :=
  match languageConstant? name with
  | some type => .of type
  | none => ((s.constant? name).map Constant.type).getD ∅

def SymbolTable.classConstantType (s : SymbolTable) (context : Context) (reference : Node)
    (name : String) : TypeSet :=
  if Text.sameIgnoringCase name "class" then .of .string
  else
    match s.resolveClassConstant context reference name with
    | .ok owner => ((s.class? owner >>= (·.constant? name)).map Constant.type).getD ∅
    | .error _ => ∅

mutual

/-- The type of an expression, and the faulty operators that are met in finding it. The parts that an
expression only passes a value to or takes a member of are not searched for faults. -/
def infer (s : SymbolTable) (context : Context) : Node → Typing
  | ⟨_, .literal value⟩ => { type := .of value.type }
  | ⟨_, .var (.literal name)⟩ => { type := Typing.ofVariable context name }
  | ⟨_, .array items⟩ =>
    let elements := inferItems s context items
    { elements with type := Typing.arrayLiteral elements.type }
  | ⟨_, .dim base _⟩ =>
    let base := infer s context base
    { base with type := Typing.element base.type }
  | ⟨_, .prop object (.literal name)⟩ =>
    { type := s.propertyTypeOf (infer s context object).type.classNames name }
  | ⟨_, .staticProp reference (.literal name)⟩ =>
    match s.resolveClass context reference with
    | .ok owner => { type := s.propertyTypeOf [owner] name }
    | .error _ => { type := ∅ }
  | ⟨_, .const name⟩ => { type := s.constantType name }
  | ⟨_, .classConst reference name⟩ => { type := s.classConstantType context reference name }
  | ⟨_, .call callee _⟩ =>
    { type := s.returnTypeOf (s.calleesOf context callee (infer s context callee).type) }
  | ⟨_, .methodCall receiver (.literal method) _⟩ =>
    let owners := (infer s context receiver).type.classNames
    { type := s.returnTypeOf (owners.filterMap fun owner => s.findMethod owner method) }
  | ⟨_, .staticCall reference (.literal method) _⟩ =>
    match s.resolveClass context reference with
    | .ok owner => { type := s.returnTypeOf (s.findMethod owner method).toList }
    | .error _ => { type := ∅ }
  | ⟨_, .new reference _⟩ => { type := s.newType context reference }
  | ⟨_, .instanceOf _ _⟩ => { type := .of .bool }
  | ⟨line, .binary operator left right⟩ =>
    let left := infer s context left
    let right := infer s context right
    let result := Typing.binary operator left.type right.type
    { type := result.1
      faults := left.faults ++ right.faults ++ result.2.toList.map fun side => ⟨line, side⟩ }
  | ⟨_, .unary operator operand⟩ =>
    let operand := infer s context operand
    { operand with type := Typing.unary operator operand.type }
  | ⟨_, .cast target _⟩ => { type := .of (Typing.cast target) }
  | ⟨_, .conditional _ (some consequent) otherwise⟩ =>
    let consequent := infer s context consequent
    let otherwise := infer s context otherwise
    { type := consequent.type.merge otherwise.type, faults := consequent.faults ++ otherwise.faults }
  | ⟨_, .conditional condition none otherwise⟩ =>
    let condition := infer s context condition
    let otherwise := infer s context otherwise
    { type := condition.type.merge otherwise.type, faults := condition.faults ++ otherwise.faults }
  | ⟨line, .closure _⟩ => { type := .of (.closure (CallableKey.closureName context.file line)) }
  | ⟨_, .assign _ value⟩ | ⟨_, .assignRef _ value⟩ => infer s context value
  | ⟨_, .print _⟩ => { type := .of .int }
  | _ => { type := ∅ }

/-- The types of the items of an array literal between them, and the faulty operators in them. -/
def inferItems (s : SymbolTable) (context : Context) : List ArrayItem → Typing
  | [] => { type := ∅ }
  | ⟨_, value⟩ :: rest =>
    let first := infer s context value
    let rest := inferItems s context rest
    { type := first.type.merge rest.type, faults := first.faults ++ rest.faults }

end

/-- The type of an expression, the faulty operators in it aside. -/
def typeOf (s : SymbolTable) (context : Context) (node : Node) : TypeSet :=
  (infer s context node).type

/-- The classes that an expression may be an object of, each once, in their declared spelling. -/
def SymbolTable.resolveClasses (s : SymbolTable) (context : Context) (node : Node) :
    Except LookupError (List String) := do
  let owners ← (typeOf s context node).classNames.mapM s.knownClass
  if owners.isEmpty then .error .unknownClass else .ok owners.eraseDups

/-- The classes that have the property an expression is asked for. -/
def SymbolTable.resolveProperty (s : SymbolTable) (context : Context) (object : Node) (name : Name) :
    Except LookupError (List String × String) :=
  match name with
  | .computed _ => .error .computedName
  | .literal property => do
    let owners ← s.resolveClasses context object
    let holders := owners.filterMap fun owner => s.findProperty owner property
    if holders.isEmpty then .error (.undefinedProperty (owners.headD "") property)
    else .ok (holders, property)

end PhpCheck
