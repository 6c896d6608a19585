/-!
# Syntax trees

A program is a tree of `Node`s, each with the line it starts on and its `Kind`. `Node.children` lists
the parts of a node in the order in which they are evaluated; every part is smaller than the whole.
-/

namespace PhpCheck

abbrev Line := UInt64

/-- A constant written in the program. -/
inductive Literal where
  | int (value : Int64)
  | float (value : Float)
  | string (value : String)
  | bool (value : Bool)
  | null

inductive UnaryOp where
  | not
  | negate
  | plus
  | bitwiseNot
  deriving DecidableEq

inductive BinaryOp where
  | add
  | subtract
  | multiply
  | divide
  | modulo
  | power
  | concat
  | equal
  | notEqual
  | identical
  | notIdentical
  | less
  | lessEqual
  | greater
  | greaterEqual
  | and
  | or
  | xor
  | coalesce
  | bitwiseAnd
  | bitwiseOr
  | bitwiseXor
  | shiftLeft
  | shiftRight
  deriving DecidableEq

/-- Whether the operator calculates with numbers. -/
def BinaryOp.isArithmetic : BinaryOp → Bool
  | .add | .subtract | .multiply | .divide | .modulo | .power => true
  | _ => false

/-- What a cast turns its subject into. -/
inductive CastTarget where
  | int
  | float
  | string
  | bool
  | array
  | object
  | unset
  deriving DecidableEq

/-- A variable that a closure takes over from where it is written. -/
structure ClosureUse where
  name : String
  byRef : Bool

mutual

/-- A part of a program. -/
structure Node where
  line : Line
  kind : Kind

/-- The forms of a program's parts. -/
inductive Kind where
  | statementList (statements : List Node)
  | classDecl (decl : ClassDecl)
  | functionDecl (decl : FunctionDecl)
  | methodDecl (decl : MethodDecl)
  | propertyDecl (decl : PropertyDecl)
  | classConstDecl (decl : ConstDecl)
  | constDecl (decl : ConstDecl)
  | ifChain (branches : List Node)
  | ifElement (condition : Option Node) (body : Node)
  | whileLoop (condition body : Node)
  | doWhile (body condition : Node)
  | forLoop (init condition step : Option Node) (body : Node)
  | expressionList (expressions : List Node)
  | switch (subject : Node) (cases : List Node)
  | switchCase (condition : Option Node) (body : Node)
  | foreach (subject : Node) (key : Option Node) (value body : Node) (byRef : Bool)
  | globalVar (name : String)
  | staticVar (name : String) (default : Option Node)
  | echo (value : Node)
  | print (value : Node)
  | returnValue (value : Option Node)
  | breakLoop
  | continueLoop
  | throwValue (value : Node)
  | unsetPlace (place : Node)
  | assign (target value : Node)
  | assignRef (target value : Node)
  | var (name : Name)
  | literal (value : Literal)
  | array (items : List ArrayItem)
  /-- The pattern `list($a, $b)` on the left of an assignment. -/
  | listTarget (elements : List Node)
  | dim (base : Node) (index : Option Node)
  | prop (object : Node) (name : Name)
  | staticProp (owner : Node) (name : Name)
  | const (name : String)
  | classConst (owner : Node) (name : String)
  /-- A bare identifier: a function, a class, or one of `self`, `static` and `parent`. -/
  | identifier (text : String)
  | call (callee : Node) (arguments : List Node)
  | methodCall (receiver : Node) (method : Name) (arguments : List Node)
  | staticCall (owner : Node) (method : Name) (arguments : List Node)
  | new (owner : Node) (arguments : List Node)
  | instanceOf (subject owner : Node)
  | binary (operator : BinaryOp) (left right : Node)
  | unary (operator : UnaryOp) (operand : Node)
  | cast (target : CastTarget) (subject : Node)
  | conditional (condition : Node) (consequent : Option Node) (otherwise : Node)
  | closure (decl : ClosureDecl)

/-- A name that is written out, or computed from another part when the program runs. -/
inductive Name where
  | literal (text : String)
  | computed (node : Node)

structure ClassDecl where
  name : String
  parent : Option String
  isTrait : Bool
  body : Node

structure FunctionDecl where
  name : String
  parameters : List ParameterDecl
  returnType : Option String
  body : Node

/-- The declaration of a method; an abstract one has no body. -/
structure MethodDecl where
  name : String
  parameters : List ParameterDecl
  returnType : Option String
  isStatic : Bool
  body : Option Node

structure ClosureDecl where
  parameters : List ParameterDecl
  uses : List ClosureUse
  returnType : Option String
  isStatic : Bool
  body : Node

structure ParameterDecl where
  name : String
  annotation : Option String
  byRef : Bool
  variadic : Bool
  default : Option Node

structure PropertyDecl where
  name : String
  annotation : Option String
  isStatic : Bool
  default : Option Node

structure ConstDecl where
  name : String
  value : Node

structure ArrayItem where
  key : Option Node
  value : Node

end

/-- The part that the name is computed from. -/
def Name.computed? : Name → Option Node
  | .literal _ => none
  | .computed node => some node

def ArrayItem.parts (item : ArrayItem) : List Node := item.key.toList ++ [item.value]

/-- The parts of a node of the given kind, in the order of evaluation. -/
def Kind.children : Kind → List Node
  | .statementList nodes | .ifChain nodes | .expressionList nodes | .listTarget nodes => nodes
  | .classDecl decl => [decl.body]
  | .functionDecl decl => [decl.body]
  | .methodDecl decl => decl.body.toList
  | .closure decl => [decl.body]
  | .propertyDecl decl => decl.default.toList
  | .classConstDecl decl | .constDecl decl => [decl.value]
  | .ifElement condition body | .switchCase condition body => condition.toList ++ [body]
  | .whileLoop condition body => [condition, body]
  | .doWhile body condition => [body, condition]
  | .forLoop init condition step body =>
    init.toList ++ condition.toList ++ step.toList ++ [body]
  | .switch subject cases => subject :: cases
  | .foreach subject key value body _ => subject :: key.toList ++ [value, body]
  | .staticVar _ default => default.toList
  | .echo value | .print value | .throwValue value | .unsetPlace value => [value]
  | .returnValue value => value.toList
  | .assign target value | .assignRef target value => [target, value]
  | .var name => name.computed?.toList
  | .array items => items.flatMap ArrayItem.parts
  | .dim base index => base :: index.toList
  | .prop object name => object :: name.computed?.toList
  | .staticProp owner name => owner :: name.computed?.toList
  | .classConst owner _ => [owner]
  | .call callee arguments => callee :: arguments
  | .methodCall receiver method arguments => receiver :: method.computed?.toList ++ arguments
  | .staticCall owner method arguments => owner :: method.computed?.toList ++ arguments
  | .new owner arguments => owner :: arguments
  | .instanceOf subject owner => [subject, owner]
  | .binary _ left right => [left, right]
  | .unary _ operand => [operand]
  | .cast _ subject => [subject]
  | .conditional condition consequent otherwise =>
    condition :: consequent.toList ++ [otherwise]
  | .globalVar _ | .breakLoop | .continueLoop | .literal _ | .const _ | .identifier _ => []

namespace Node

def children (node : Node) : List Node := node.kind.children

def isStatementList (node : Node) : Bool :=
  match node.kind with
  | .statementList _ => true
  | _ => false

/-- What a reader would call the node. -/
def describe (node : Node) : String :=
  match node.kind with
  | .var _ => "variable"
  | .array _ => "array"
  | .prop .. | .staticProp .. => "property"
  | .const _ | .classConst .. => "constant"
  | .closure _ => "closure"
  | .literal _ => "literal"
  | _ => "expression"

end Node

/-! ### Parts are smaller than the whole -/

theorem sizeOf_toList_mem {o : Option Node} {c : Node} (h : c ∈ o.toList) :
    sizeOf c < sizeOf o := by
  cases o with
  | none => simp at h
  | some n =>
    have hc : c = n := by simpa using h
    subst hc
    simp

theorem sizeOf_computed_mem {name : Name} {c : Node} (h : c ∈ name.computed?.toList) :
    sizeOf c < sizeOf name := by
  cases name with
  | literal text => simp [Name.computed?] at h
  | computed node =>
    have hc : c = node := by simpa [Name.computed?] using h
    subst hc
    simp

theorem sizeOf_parts_mem {item : ArrayItem} {c : Node} (h : c ∈ item.parts) :
    sizeOf c < sizeOf item := by
  rcases item with ⟨key, value⟩
  rcases List.mem_append.mp h with h | h
  · have := sizeOf_toList_mem (show c ∈ key.toList from h)
    rw [ArrayItem.mk.sizeOf_spec]; omega
  · have hc : c = value := by simpa using h
    subst hc
    rw [ArrayItem.mk.sizeOf_spec]; omega

theorem Kind.sizeOf_children_mem {kind : Kind} {c : Node} (h : c ∈ kind.children) :
    sizeOf c < sizeOf kind := by
  cases kind with
  | statementList nodes =>
    have := List.sizeOf_lt_of_mem (show c ∈ nodes from h)
    rw [Kind.statementList.sizeOf_spec]; omega
  | ifChain nodes =>
    have := List.sizeOf_lt_of_mem (show c ∈ nodes from h)
    rw [Kind.ifChain.sizeOf_spec]; omega
  | expressionList nodes =>
    have := List.sizeOf_lt_of_mem (show c ∈ nodes from h)
    rw [Kind.expressionList.sizeOf_spec]; omega
  | listTarget nodes =>
    have := List.sizeOf_lt_of_mem (show c ∈ nodes from h)
    rw [Kind.listTarget.sizeOf_spec]; omega
  | classDecl decl =>
    rcases decl with ⟨name, parent, isTrait, body⟩
    have hc : c = body := by simpa [children] using h
    subst hc
    rw [Kind.classDecl.sizeOf_spec, ClassDecl.mk.sizeOf_spec]; omega
  | functionDecl decl =>
    rcases decl with ⟨name, parameters, returnType, body⟩
    have hc : c = body := by simpa [children] using h
    subst hc
    rw [Kind.functionDecl.sizeOf_spec, FunctionDecl.mk.sizeOf_spec]; omega
  | methodDecl decl =>
    rcases decl with ⟨name, parameters, returnType, isStatic, body⟩
    have := sizeOf_toList_mem (show c ∈ body.toList from h)
    rw [Kind.methodDecl.sizeOf_spec, MethodDecl.mk.sizeOf_spec]; omega
  | closure decl =>
    rcases decl with ⟨parameters, uses, returnType, isStatic, body⟩
    have hc : c = body := by simpa [children] using h
    subst hc
    rw [Kind.closure.sizeOf_spec, ClosureDecl.mk.sizeOf_spec]; omega
  | propertyDecl decl =>
    rcases decl with ⟨name, annotation, isStatic, default⟩
    have := sizeOf_toList_mem (show c ∈ default.toList from h)
    rw [Kind.propertyDecl.sizeOf_spec, PropertyDecl.mk.sizeOf_spec]; omega
  | classConstDecl decl =>
    rcases decl with ⟨name, value⟩
    have hc : c = value := by simpa [children] using h
    subst hc
    rw [Kind.classConstDecl.sizeOf_spec, ConstDecl.mk.sizeOf_spec]; omega
  | constDecl decl =>
    rcases decl with ⟨name, value⟩
    have hc : c = value := by simpa [children] using h
    subst hc
    rw [Kind.constDecl.sizeOf_spec, ConstDecl.mk.sizeOf_spec]; omega
  | ifElement condition body =>
    rcases List.mem_append.mp h with h | h
    · have := sizeOf_toList_mem h
      rw [Kind.ifElement.sizeOf_spec]; omega
    · have hc : c = body := by simpa using h
      subst hc
      rw [Kind.ifElement.sizeOf_spec]; omega
  | switchCase condition body =>
    rcases List.mem_append.mp h with h | h
    · have := sizeOf_toList_mem h
      rw [Kind.switchCase.sizeOf_spec]; omega
    · have hc : c = body := by simpa using h
      subst hc
      rw [Kind.switchCase.sizeOf_spec]; omega
  | forLoop init condition step body =>
    simp only [children, List.mem_append, List.mem_singleton] at h
    rcases h with ((h | h) | h) | rfl
    · have := sizeOf_toList_mem h
      rw [Kind.forLoop.sizeOf_spec]; omega
    · have := sizeOf_toList_mem h
      rw [Kind.forLoop.sizeOf_spec]; omega
    · have := sizeOf_toList_mem h
      rw [Kind.forLoop.sizeOf_spec]; omega
    · rw [Kind.forLoop.sizeOf_spec]; omega
  | switch subject cases =>
    rcases List.mem_cons.mp (show c ∈ subject :: cases from h) with rfl | h
    · rw [Kind.switch.sizeOf_spec]; omega
    · have := List.sizeOf_lt_of_mem h
      rw [Kind.switch.sizeOf_spec]; omega
  | foreach subject key value body byRef =>
    simp only [children, List.cons_append, List.mem_cons, List.mem_append, List.not_mem_nil,
      or_false] at h
    rcases h with rfl | h | rfl | rfl
    · rw [Kind.foreach.sizeOf_spec]; omega
    · have := sizeOf_toList_mem h
      rw [Kind.foreach.sizeOf_spec]; omega
    · rw [Kind.foreach.sizeOf_spec]; omega
    · rw [Kind.foreach.sizeOf_spec]; omega
  | staticVar name default =>
    have := sizeOf_toList_mem (show c ∈ default.toList from h)
    rw [Kind.staticVar.sizeOf_spec]; omega
  | returnValue value =>
    have := sizeOf_toList_mem (show c ∈ value.toList from h)
    rw [Kind.returnValue.sizeOf_spec]; omega
  | var name =>
    have := sizeOf_computed_mem (show c ∈ name.computed?.toList from h)
    rw [Kind.var.sizeOf_spec]; omega
  | array items =>
    obtain ⟨item, hi, hc⟩ := List.mem_flatMap.mp (show c ∈ items.flatMap ArrayItem.parts from h)
    have h₁ := List.sizeOf_lt_of_mem hi
    have h₂ := sizeOf_parts_mem hc
    rw [Kind.array.sizeOf_spec]; omega
  | dim base index =>
    rcases List.mem_cons.mp (show c ∈ base :: index.toList from h) with rfl | h
    · rw [Kind.dim.sizeOf_spec]; omega
    · have := sizeOf_toList_mem h
      rw [Kind.dim.sizeOf_spec]; omega
  | prop object name =>
    rcases List.mem_cons.mp (show c ∈ object :: name.computed?.toList from h) with rfl | h
    · rw [Kind.prop.sizeOf_spec]; omega
    · have := sizeOf_computed_mem h
      rw [Kind.prop.sizeOf_spec]; omega
  | staticProp owner name =>
    rcases List.mem_cons.mp (show c ∈ owner :: name.computed?.toList from h) with rfl | h
    · rw [Kind.staticProp.sizeOf_spec]; omega
    · have := sizeOf_computed_mem h
      rw [Kind.staticProp.sizeOf_spec]; omega
  | call callee arguments =>
    rcases List.mem_cons.mp (show c ∈ callee :: arguments from h) with rfl | h
    · rw [Kind.call.sizeOf_spec]; omega
    · have := List.sizeOf_lt_of_mem h
      rw [Kind.call.sizeOf_spec]; omega
  | new owner arguments =>
    rcases List.mem_cons.mp (show c ∈ owner :: arguments from h) with rfl | h
    · rw [Kind.new.sizeOf_spec]; omega
    · have := List.sizeOf_lt_of_mem h
      rw [Kind.new.sizeOf_spec]; omega
  | methodCall receiver method arguments =>
    simp only [children, List.cons_append, List.mem_cons, List.mem_append] at h
    rcases h with rfl | h | h
    · rw [Kind.methodCall.sizeOf_spec]; omega
    · have := sizeOf_computed_mem h
      rw [Kind.methodCall.sizeOf_spec]; omega
    · have := List.sizeOf_lt_of_mem h
      rw [Kind.methodCall.sizeOf_spec]; omega
  | staticCall owner method arguments =>
    simp only [children, List.cons_append, List.mem_cons, List.mem_append] at h
    rcases h with rfl | h | h
    · rw [Kind.staticCall.sizeOf_spec]; omega
    · have := sizeOf_computed_mem h
      rw [Kind.staticCall.sizeOf_spec]; omega
    · have := List.sizeOf_lt_of_mem h
      rw [Kind.staticCall.sizeOf_spec]; omega
  | conditional condition consequent otherwise =>
    simp only [children, List.cons_append, List.mem_cons, List.mem_append, List.not_mem_nil,
      or_false] at h
    rcases h with rfl | h | rfl
    · rw [Kind.conditional.sizeOf_spec]; omega
    · have := sizeOf_toList_mem h
      rw [Kind.conditional.sizeOf_spec]; omega
    · rw [Kind.conditional.sizeOf_spec]; omega
  | globalVar _ => simp [children] at h
  | breakLoop => simp [children] at h
  | continueLoop => simp [children] at h
  | literal _ => simp [children] at h
  | const _ => simp [children] at h
  | identifier _ => simp [children] at h
  | _ =>
    simp only [children, List.mem_cons, List.not_mem_nil, or_false] at h
    rcases h with rfl | rfl <;> simp <;> omega

theorem Node.sizeOf_children_mem {node c : Node} (h : c ∈ node.children) :
    sizeOf c < sizeOf node := by
  rcases node with ⟨line, kind⟩
  have := Kind.sizeOf_children_mem (show c ∈ kind.children from h)
  rw [Node.mk.sizeOf_spec]; omega

/-- To show a statement of every node it is enough to show it of a node all of whose parts have it. -/
theorem Node.induction_on_children {P : Node → Prop}
    (step : ∀ node : Node, (∀ c ∈ node.children, P c) → P node) (node : Node) : P node :=
  step node fun c _ => Node.induction_on_children step c
termination_by sizeOf node
decreasing_by exact Node.sizeOf_children_mem ‹_›

end PhpCheck
