import PhpCheck.Json.Record
import PhpCheck.Json.Reader
import PhpCheck.Node.Basic
import PhpCheck.TypeSet.Declaration

/-!
# Syntax trees as JSON

`Node.toJson` writes a tree with every field present, absent parts as null, and forms without content
as bare tags. `Node.ofJson` reads what `Node.toJson` writes, and the looser spellings that a document
may use. A document is read with room for 127 nested arrays and objects; a computed name is taken in
whole before it is read, so that in it even ignored values have to fit and to denote something.
-/

namespace PhpCheck

/-! ### Writing -/

/-- A variant with content. -/
def tagged (tag : String) (content : Json) : Json := .record [(tag, content)]

/-- A literal as JSON. A float that is not finite has no numeral. -/
def Literal.toJson : Literal → Json
  | .int value => tagged "int" (.integer value.toInt)
  | .float value =>
    tagged "float" (if value.isFinite then .number (some (.float value)) else .null)
  | .string value => tagged "string" (.text value)
  | .bool value => tagged "bool" (.bool value)
  | .null => .text "null"

def UnaryOp.tag : UnaryOp → String
  | .not => "not"
  | .negate => "negate"
  | .plus => "plus"
  | .bitwiseNot => "bitwise_not"

def BinaryOp.tag : BinaryOp → String
  | .add => "add"
  | .subtract => "subtract"
  | .multiply => "multiply"
  | .divide => "divide"
  | .modulo => "modulo"
  | .power => "power"
  | .concat => "concat"
  | .equal => "equal"
  | .notEqual => "not_equal"
  | .identical => "identical"
  | .notIdentical => "not_identical"
  | .less => "less"
  | .lessEqual => "less_equal"
  | .greater => "greater"
  | .greaterEqual => "greater_equal"
  | .and => "and"
  | .or => "or"
  | .xor => "xor"
  | .coalesce => "coalesce"
  | .bitwiseAnd => "bitwise_and"
  | .bitwiseOr => "bitwise_or"
  | .bitwiseXor => "bitwise_xor"
  | .shiftLeft => "shift_left"
  | .shiftRight => "shift_right"

def CastTarget.tag : CastTarget → String
  | .int => "int"
  | .float => "float"
  | .string => "string"
  | .bool => "bool"
  | .array => "array"
  | .object => "object"
  | .unset => "unset"

def Kind.tag : Kind → String
  | .statementList _ => "statement_list"
  | .classDecl _ => "class_decl"
  | .functionDecl _ => "function_decl"
  | .methodDecl _ => "method_decl"
  | .propertyDecl _ => "property_decl"
  | .classConstDecl _ => "class_const_decl"
  | .constDecl _ => "const_decl"
  | .ifChain _ => "if"
  | .ifElement .. => "if_element"
  | .whileLoop .. => "while"
  | .doWhile .. => "do_while"
  | .forLoop .. => "for"
  | .expressionList _ => "expression_list"
  | .switch .. => "switch"
  | .switchCase .. => "switch_case"
  | .foreach .. => "foreach"
  | .globalVar _ => "global"
  | .staticVar .. => "static"
  | .echo _ => "echo"
  | .print _ => "print"
  | .returnValue _ => "return"
  | .breakLoop => "break"
  | .continueLoop => "continue"
  | .throwValue _ => "throw"
  | .unsetPlace _ => "unset"
  | .assign .. => "assign"
  | .assignRef .. => "assign_ref"
  | .var _ => "variable"
  | .literal _ => "literal"
  | .array _ => "array"
  | .listTarget _ => "list_target"
  | .dim .. => "dim"
  | .prop .. => "prop"
  | .staticProp .. => "static_prop"
  | .const _ => "const"
  | .classConst .. => "class_const"
  | .identifier _ => "name"
  | .call .. => "call"
  | .methodCall .. => "method_call"
  | .staticCall .. => "static_call"
  | .new .. => "new"
  | .instanceOf .. => "instanceof"
  | .binary .. => "binary"
  | .unary .. => "unary"
  | .cast .. => "cast"
  | .conditional .. => "conditional"
  | .closure _ => "closure"

def ClosureUse.toJson (captured : ClosureUse) : Json :=
  .record [("name", .text captured.name), ("by_ref", .bool captured.byRef)]

mutual

def Node.toJson : Node → Json
  | ⟨line, kind⟩ => .record [("line", .integer line.toNat), ("kind", kind.toJson)]

def Kind.toJson : Kind → Json
  | .statementList nodes => tagged "statement_list" (.array (nodesToJson nodes))
  | .classDecl decl => tagged "class_decl" decl.toJson
  | .functionDecl decl => tagged "function_decl" decl.toJson
  | .methodDecl decl => tagged "method_decl" decl.toJson
  | .propertyDecl decl => tagged "property_decl" decl.toJson
  | .classConstDecl decl => tagged "class_const_decl" decl.toJson
  | .constDecl decl => tagged "const_decl" decl.toJson
  | .ifChain branches => tagged "if" (.array (nodesToJson branches))
  | .ifElement condition body =>
    tagged "if_element" (.record [("condition", nodeToJson? condition), ("body", body.toJson)])
  | .whileLoop condition body =>
    tagged "while" (.record [("condition", condition.toJson), ("body", body.toJson)])
  | .doWhile body condition =>
    tagged "do_while" (.record [("body", body.toJson), ("condition", condition.toJson)])
  | .forLoop init condition step body =>
    tagged "for" (.record
      [("init", nodeToJson? init), ("condition", nodeToJson? condition), ("step", nodeToJson? step),
        ("body", body.toJson)])
  | .expressionList expressions => tagged "expression_list" (.array (nodesToJson expressions))
  | .switch subject cases =>
    tagged "switch" (.record [("subject", subject.toJson), ("cases", .array (nodesToJson cases))])
  | .switchCase condition body =>
    tagged "switch_case" (.record [("condition", nodeToJson? condition), ("body", body.toJson)])
  | .foreach subject key value body byRef =>
    tagged "foreach" (.record
      [("subject", subject.toJson), ("key", nodeToJson? key), ("value", value.toJson),
        ("body", body.toJson), ("by_ref", .bool byRef)])
  | .globalVar name => tagged "global" (.record [("name", .text name)])
  | .staticVar name default =>
    tagged "static" (.record [("name", .text name), ("default", nodeToJson? default)])
  | .echo value => tagged "echo" value.toJson
  | .print value => tagged "print" value.toJson
  | .returnValue value => tagged "return" (nodeToJson? value)
  | .breakLoop => .text "break"
  | .continueLoop => .text "continue"
  | .throwValue value => tagged "throw" value.toJson
  | .unsetPlace place => tagged "unset" place.toJson
  | .assign target value =>
    tagged "assign" (.record [("target", target.toJson), ("value", value.toJson)])
  | .assignRef target value =>
    tagged "assign_ref" (.record [("target", target.toJson), ("value", value.toJson)])
  | .var name => tagged "variable" name.toJson
  | .literal value => tagged "literal" value.toJson
  | .array items => tagged "array" (.array (itemsToJson items))
  | .listTarget elements => tagged "list_target" (.array (nodesToJson elements))
  | .dim base index =>
    tagged "dim" (.record [("base", base.toJson), ("index", nodeToJson? index)])
  | .prop object name =>
    tagged "prop" (.record [("object", object.toJson), ("name", name.toJson)])
  | .staticProp owner name =>
    tagged "static_prop" (.record [("class", owner.toJson), ("name", name.toJson)])
  | .const name => tagged "const" (.record [("name", .text name)])
  | .classConst owner name =>
    tagged "class_const" (.record [("class", owner.toJson), ("name", .text name)])
  | .identifier text => tagged "name" (.text text)
  | .call callee arguments =>
    tagged "call" (.record
      [("callee", callee.toJson), ("arguments", .array (nodesToJson arguments))])
  | .methodCall receiver method arguments =>
    tagged "method_call" (.record
      [("receiver", receiver.toJson), ("method", method.toJson),
        ("arguments", .array (nodesToJson arguments))])
  | .staticCall owner method arguments =>
    tagged "static_call" (.record
      [("class", owner.toJson), ("method", method.toJson),
        ("arguments", .array (nodesToJson arguments))])
  | .new owner arguments =>
    tagged "new" (.record
      [("class", owner.toJson), ("arguments", .array (nodesToJson arguments))])
  | .instanceOf subject owner =>
    tagged "instanceof" (.record [("subject", subject.toJson), ("class", owner.toJson)])
  | .binary operator left right =>
    tagged "binary" (.record
      [("operator", .text operator.tag), ("left", left.toJson), ("right", right.toJson)])
  | .unary operator operand =>
    tagged "unary" (.record [("operator", .text operator.tag), ("operand", operand.toJson)])
  | .cast target subject =>
    tagged "cast" (.record [("target", .text target.tag), ("subject", subject.toJson)])
  | .conditional condition consequent otherwise =>
    tagged "conditional" (.record
      [("condition", condition.toJson), ("then", nodeToJson? consequent),
        ("otherwise", otherwise.toJson)])
  | .closure decl => tagged "closure" decl.toJson

/-- A name as JSON: its text, or the node that it is computed from. -/
def Name.toJson : Name → Json
  | .literal text => .text text
  | .computed node => node.toJson

def ClassDecl.toJson : ClassDecl → Json
  | ⟨name, parent, isTrait, body⟩ =>
    .record [("name", .text name), ("parent", Json.ofText? parent), ("is_trait", .bool isTrait),
      ("body", body.toJson)]

def FunctionDecl.toJson : FunctionDecl → Json
  | ⟨name, parameters, returnType, body⟩ =>
    .record [("name", .text name), ("parameters", .array (parametersToJson parameters)),
      ("return_type", Json.ofText? returnType), ("body", body.toJson)]

def MethodDecl.toJson : MethodDecl → Json
  | ⟨name, parameters, returnType, isStatic, body⟩ =>
    .record [("name", .text name), ("parameters", .array (parametersToJson parameters)),
      ("return_type", Json.ofText? returnType), ("is_static", .bool isStatic),
      ("body", nodeToJson? body)]

def ClosureDecl.toJson : ClosureDecl → Json
  | ⟨parameters, uses, returnType, isStatic, body⟩ =>
    .record [("parameters", .array (parametersToJson parameters)),
      ("uses", .array (uses.map ClosureUse.toJson)), ("return_type", Json.ofText? returnType),
      ("is_static", .bool isStatic), ("body", body.toJson)]

def ParameterDecl.toJson : ParameterDecl → Json
  | ⟨name, annotation, byRef, variadic, default⟩ =>
    .record [("name", .text name), ("type_annotation", Json.ofText? annotation),
      ("by_ref", .bool byRef), ("variadic", .bool variadic), ("default", nodeToJson? default)]

def PropertyDecl.toJson : PropertyDecl → Json
  | ⟨name, annotation, isStatic, default⟩ =>
    .record [("name", .text name), ("type_annotation", Json.ofText? annotation),
      ("is_static", .bool isStatic), ("default", nodeToJson? default)]

def ConstDecl.toJson : ConstDecl → Json
  | ⟨name, value⟩ => .record [("name", .text name), ("value", value.toJson)]

def ArrayItem.toJson : ArrayItem → Json
  | ⟨key, value⟩ => .record [("key", nodeToJson? key), ("value", value.toJson)]

/-- A node or its absence as JSON. -/
def nodeToJson? : Option Node → Json
  | none => .null
  | some node => node.toJson

def nodesToJson : List Node → List Json
  | [] => []
  | node :: rest => node.toJson :: nodesToJson rest

def itemsToJson : List ArrayItem → List Json
  | [] => []
  | item :: rest => item.toJson :: itemsToJson rest

def parametersToJson : List ParameterDecl → List Json
  | [] => []
  | parameter :: rest => parameter.toJson :: parametersToJson rest

end

/-! ### Reading -/

def UnaryOp.ofTag? : String → Option UnaryOp
  | "not" => some .not
  | "negate" => some .negate
  | "plus" => some .plus
  | "bitwise_not" => some .bitwiseNot
  | _ => none

def BinaryOp.ofTag? : String → Option BinaryOp
  | "add" => some .add
  | "subtract" => some .subtract
  | "multiply" => some .multiply
  | "divide" => some .divide
  | "modulo" => some .modulo
  | "power" => some .power
  | "concat" => some .concat
  | "equal" => some .equal
  | "not_equal" => some .notEqual
  | "identical" => some .identical
  | "not_identical" => some .notIdentical
  | "less" => some .less
  | "less_equal" => some .lessEqual
  | "greater" => some .greater
  | "greater_equal" => some .greaterEqual
  | "and" => some .and
  | "or" => some .or
  | "xor" => some .xor
  | "coalesce" => some .coalesce
  | "bitwise_and" => some .bitwiseAnd
  | "bitwise_or" => some .bitwiseOr
  | "bitwise_xor" => some .bitwiseXor
  | "shift_left" => some .shiftLeft
  | "shift_right" => some .shiftRight
  | _ => none

def CastTarget.ofTag? : String → Option CastTarget
  | "int" => some .int
  | "float" => some .float
  | "string" => some .string
  | "bool" => some .bool
  | "array" => some .array
  | "object" => some .object
  | "unset" => some .unset
  | _ => none

def Literal.read (room : Nat) (json : Json) : Option Literal :=
  match json.variant? room with
  | some ("int", some (_, content)) => .int <$> content.signed?
  | some ("float", some (_, content)) => .float <$> content.float?
  | some ("string", some (_, content)) => .string <$> content.text?
  | some ("bool", some (_, content)) => .bool <$> content.bool?
  | some ("null", none) | some ("null", some (_, .null)) => some .null
  | _ => none

def ClosureUse.read (room : Nat) (json : Json) : Option ClosureUse := do
  let (_, [name, byRef]) ← json.record? room ["name", "by_ref"] | none
  return ⟨← name.required Json.text?, ← byRef.withDefault Json.bool? false⟩

section Read

/- A reader of nodes for each room. -/
variable (node : Nat → Json → Option Node)

def Name.read (room : Nat) : Json → Option Name
  | .string value => .literal <$> value
  | json => if json.isDefinite && json.depth ≤ room then .computed <$> node room json else none

def ParameterDecl.read (room : Nat) (json : Json) : Option ParameterDecl := do
  let (inner, [name, annotation, byRef, variadic, default]) ←
    json.record? room ["name", "type_annotation", "by_ref", "variadic", "default"] | none
  return ⟨← name.required Json.text?, ← annotation.withDefault (Json.nullable Json.text?) none,
    ← byRef.withDefault Json.bool? false, ← variadic.withDefault Json.bool? false,
    ← default.withDefault (Json.nullable (node inner)) none⟩

def ParameterDecl.readList (room : Nat) : Json → Option (List ParameterDecl) :=
  Json.list? room (ParameterDecl.read node)

def ClassDecl.read (room : Nat) (json : Json) : Option ClassDecl := do
  let (inner, [name, parent, isTrait, body]) ←
    json.record? room ["name", "parent", "is_trait", "body"] | none
  return ⟨← name.required Json.text?, ← parent.withDefault (Json.nullable Json.text?) none,
    ← isTrait.withDefault Json.bool? false, ← body.required (node inner)⟩

def FunctionDecl.read (room : Nat) (json : Json) : Option FunctionDecl := do
  let (inner, [name, parameters, returnType, body]) ←
    json.record? room ["name", "parameters", "return_type", "body"] | none
  return ⟨← name.required Json.text?,
    ← parameters.withDefault (ParameterDecl.readList node inner) [],
    ← returnType.withDefault (Json.nullable Json.text?) none, ← body.required (node inner)⟩

def MethodDecl.read (room : Nat) (json : Json) : Option MethodDecl := do
  let (inner, [name, parameters, returnType, isStatic, body]) ←
    json.record? room ["name", "parameters", "return_type", "is_static", "body"] | none
  return ⟨← name.required Json.text?,
    ← parameters.withDefault (ParameterDecl.readList node inner) [],
    ← returnType.withDefault (Json.nullable Json.text?) none,
    ← isStatic.withDefault Json.bool? false,
    ← body.withDefault (Json.nullable (node inner)) none⟩

def ClosureDecl.read (room : Nat) (json : Json) : Option ClosureDecl := do
  let (inner, [parameters, uses, returnType, isStatic, body]) ←
    json.record? room ["parameters", "uses", "return_type", "is_static", "body"] | none
  return ⟨← parameters.withDefault (ParameterDecl.readList node inner) [],
    ← uses.withDefault (Json.list? inner ClosureUse.read) [],
    ← returnType.withDefault (Json.nullable Json.text?) none,
    ← isStatic.withDefault Json.bool? false, ← body.required (node inner)⟩

def PropertyDecl.read (room : Nat) (json : Json) : Option PropertyDecl := do
  let (inner, [name, annotation, isStatic, default]) ←
    json.record? room ["name", "type_annotation", "is_static", "default"] | none
  return ⟨← name.required Json.text?, ← annotation.withDefault (Json.nullable Json.text?) none,
    ← isStatic.withDefault Json.bool? false,
    ← default.withDefault (Json.nullable (node inner)) none⟩

def ConstDecl.read (room : Nat) (json : Json) : Option ConstDecl := do
  let (inner, [name, value]) ← json.record? room ["name", "value"] | none
  return ⟨← name.required Json.text?, ← value.required (node inner)⟩

def ArrayItem.read (room : Nat) (json : Json) : Option ArrayItem := do
  let (inner, [key, value]) ← json.record? room ["key", "value"] | none
  return ⟨← key.withDefault (Json.nullable (node inner)) none, ← value.required (node inner)⟩

/-- Reads a kind of node with content, given its tag. -/
def Kind.readTagged (room : Nat) (tag : String) (json : Json) : Option Kind :=
  match tag with
  | "statement_list" => .statementList <$> json.list? room node
  | "class_decl" => .classDecl <$> ClassDecl.read node room json
  | "function_decl" => .functionDecl <$> FunctionDecl.read node room json
  | "method_decl" => .methodDecl <$> MethodDecl.read node room json
  | "property_decl" => .propertyDecl <$> PropertyDecl.read node room json
  | "class_const_decl" => .classConstDecl <$> ConstDecl.read node room json
  | "const_decl" => .constDecl <$> ConstDecl.read node room json
  | "if" => .ifChain <$> json.list? room node
  | "if_element" => do
    let (inner, [condition, body]) ← json.record? room ["condition", "body"] | none
    return .ifElement (← condition.optional (node inner)) (← body.required (node inner))
  | "while" => do
    let (inner, [condition, body]) ← json.record? room ["condition", "body"] | none
    return .whileLoop (← condition.required (node inner)) (← body.required (node inner))
  | "do_while" => do
    let (inner, [body, condition]) ← json.record? room ["body", "condition"] | none
    return .doWhile (← body.required (node inner)) (← condition.required (node inner))
  | "for" => do
    let (inner, [init, condition, step, body]) ←
      json.record? room ["init", "condition", "step", "body"] | none
    return .forLoop (← init.optional (node inner)) (← condition.optional (node inner))
      (← step.optional (node inner)) (← body.required (node inner))
  | "expression_list" => .expressionList <$> json.list? room node
  | "switch" => do
    let (inner, [subject, cases]) ← json.record? room ["subject", "cases"] | none
    return .switch (← subject.required (node inner)) (← cases.required (Json.list? inner node))
  | "switch_case" => do
    let (inner, [condition, body]) ← json.record? room ["condition", "body"] | none
    return .switchCase (← condition.optional (node inner)) (← body.required (node inner))
  | "foreach" => do
    let (inner, [subject, key, value, body, byRef]) ←
      json.record? room ["subject", "key", "value", "body", "by_ref"] | none
    return .foreach (← subject.required (node inner)) (← key.optional (node inner))
      (← value.required (node inner)) (← body.required (node inner))
      (← byRef.withDefault Json.bool? false)
  | "global" => do
    let (_, [name]) ← json.record? room ["name"] | none
    return .globalVar (← name.required Json.text?)
  | "static" => do
    let (inner, [name, default]) ← json.record? room ["name", "default"] | none
    return .staticVar (← name.required Json.text?) (← default.optional (node inner))
  | "echo" => .echo <$> node room json
  | "print" => .print <$> node room json
  | "return" => .returnValue <$> json.nullable (node room)
  | "break" => match json with
    | .null => some .breakLoop
    | _ => none
  | "continue" => match json with
    | .null => some .continueLoop
    | _ => none
  | "throw" => .throwValue <$> node room json
  | "unset" => .unsetPlace <$> node room json
  | "assign" => do
    let (inner, [target, value]) ← json.record? room ["target", "value"] | none
    return .assign (← target.required (node inner)) (← value.required (node inner))
  | "assign_ref" => do
    let (inner, [target, value]) ← json.record? room ["target", "value"] | none
    return .assignRef (← target.required (node inner)) (← value.required (node inner))
  | "variable" => .var <$> Name.read node room json
  | "literal" => .literal <$> Literal.read room json
  | "array" => .array <$> json.list? room (ArrayItem.read node)
  | "list_target" => .listTarget <$> json.list? room node
  | "dim" => do
    let (inner, [base, index]) ← json.record? room ["base", "index"] | none
    return .dim (← base.required (node inner)) (← index.optional (node inner))
  | "prop" => do
    let (inner, [object, name]) ← json.record? room ["object", "name"] | none
    return .prop (← object.required (node inner)) (← name.required (Name.read node inner))
  | "static_prop" => do
    let (inner, [owner, name]) ← json.record? room ["class", "name"] | none
    return .staticProp (← owner.required (node inner)) (← name.required (Name.read node inner))
  | "const" => do
    let (_, [name]) ← json.record? room ["name"] | none
    return .const (← name.required Json.text?)
  | "class_const" => do
    let (inner, [owner, name]) ← json.record? room ["class", "name"] | none
    return .classConst (← owner.required (node inner)) (← name.required Json.text?)
  | "name" => .identifier <$> json.text?
  | "call" => do
    let (inner, [callee, arguments]) ← json.record? room ["callee", "arguments"] | none
    return .call (← callee.required (node inner)) (← arguments.required (Json.list? inner node))
  | "method_call" => do
    let (inner, [receiver, method, arguments]) ←
      json.record? room ["receiver", "method", "arguments"] | none
    return .methodCall (← receiver.required (node inner)) (← method.required (Name.read node inner))
      (← arguments.required (Json.list? inner node))
  | "static_call" => do
    let (inner, [owner, method, arguments]) ←
      json.record? room ["class", "method", "arguments"] | none
    return .staticCall (← owner.required (node inner)) (← method.required (Name.read node inner))
      (← arguments.required (Json.list? inner node))
  | "new" => do
    let (inner, [owner, arguments]) ← json.record? room ["class", "arguments"] | none
    return .new (← owner.required (node inner)) (← arguments.required (Json.list? inner node))
  | "instanceof" => do
    let (inner, [subject, owner]) ← json.record? room ["subject", "class"] | none
    return .instanceOf (← subject.required (node inner)) (← owner.required (node inner))
  | "binary" => do
    let (inner, [operator, left, right]) ←
      json.record? room ["operator", "left", "right"] | none
    let operator ← operator.required fun json => json.tag? inner >>= BinaryOp.ofTag?
    return .binary operator (← left.required (node inner)) (← right.required (node inner))
  | "unary" => do
    let (inner, [operator, operand]) ← json.record? room ["operator", "operand"] | none
    let operator ← operator.required fun json => json.tag? inner >>= UnaryOp.ofTag?
    return .unary operator (← operand.required (node inner))
  | "cast" => do
    let (inner, [target, subject]) ← json.record? room ["target", "subject"] | none
    let target ← target.required fun json => json.tag? inner >>= CastTarget.ofTag?
    return .cast target (← subject.required (node inner))
  | "conditional" => do
    let (inner, [condition, consequent, otherwise]) ←
      json.record? room ["condition", "then", "otherwise"] | none
    return .conditional (← condition.required (node inner)) (← consequent.optional (node inner))
      (← otherwise.required (node inner))
  | "closure" => .closure <$> ClosureDecl.read node room json
  | _ => none

/-- Reads a kind of node. Only the forms without content may be a bare tag. -/
def Kind.read (room : Nat) (json : Json) : Option Kind :=
  match json.variant? room with
  | some ("break", none) => some .breakLoop
  | some ("continue", none) => some .continueLoop
  | some (_, none) => none
  | some (tag, some (inner, content)) => Kind.readTagged node inner tag content
  | none => none

end Read

namespace Node

/-- Reads a node, looking into at most `fuel` nodes one inside the other. -/
def readWithin : (fuel room : Nat) → Json → Option Node
  | 0, _, _ => none
  | fuel + 1, room, json => do
    let (inner, [line, kind]) ← json.record? room ["line", "kind"] | none
    return ⟨← line.required Json.unsigned?, ← kind.required (Kind.read (readWithin fuel) inner)⟩

/-- Reads a node with room for the given number of nested arrays and objects. -/
def read (room : Nat) (json : Json) : Option Node := readWithin room room json

/-- Reads a node of any depth. -/
def ofJson (json : Json) : Option Node := read json.depth json

end Node

/-! ### Units -/

/-- A file of a program: its path, its tree, and its text if that is known. -/
structure SourceUnit where
  path : String
  root : Node
  source : Option String

namespace SourceUnit

/-- How many arrays and objects a document may nest. -/
def documentRoom : Nat := 127

def ofJson (json : Json) : Except LoadError SourceUnit :=
  let unit? : Option SourceUnit := do
    let (inner, [path, root, source]) ←
      json.record? documentRoom ["path", "root", "source"] | none
    return ⟨← path.required Json.text?, ← root.required (Node.read inner),
      ← source.withDefault (Json.nullable Json.text?) none⟩
  match unit? with
  | some unit => .ok unit
  | none => .error .document

def parse (text : String) : Except LoadError SourceUnit :=
  match Json.parse text with
  | some json => ofJson json
  | none => .error .document

end SourceUnit

end PhpCheck
