import PhpCheck.Node.Document
import PhpCheck.SymbolTable.Basic
import PhpCheck.Typing.Constant
import PhpCheck.TypeSet.Declaration

/-!
# Collecting declarations

Before a program is analyzed, everything it declares is entered into the symbol table, so that a part
of it may refer to what is declared further down or in another file. What is in the table stays as it
is; a declared type that cannot be read ends the collection with what was entered so far.
-/

namespace PhpCheck

/-- The type that a parameter is declared with. A default of `null` admits `null` beside a declared
type, and says nothing about a parameter without one. -/
def ParameterDecl.type (owner : Option String) (decl : ParameterDecl) : Except LoadError TypeSet :=
  match decl.annotation, decl.default.map constantType with
  | some raw, default => do
    let declared ← TypeSet.parse raw owner
    return if (default.getD ∅).contains .null then declared.insert .null else declared
  | none, some default => return if default.contains .null then ∅ else default
  | none, none => return ∅

/-- The parameter that a declaration stands for. -/
def ParameterDecl.declared (owner : Option String) (site : Site) (decl : ParameterDecl) :
    Except LoadError Parameter := do
  let type ← decl.type owner
  return {
    name := decl.name
    type
    byReference := decl.byRef
    isOptional := decl.default.isSome || decl.variadic
    isVariadic := decl.variadic
    site }

/-- The scope in which a body is entered: the parameters, and `this` in a method with an object. -/
def entryScope (owner : Option String) (isStatic : Bool) (parameters : List Parameter)
    (site : Site) : Scope :=
  let scope := parameters.foldl
    (fun (scope : Scope) p => scope.bind { name := p.name, type := p.boundType, site }) {}
  match owner, isStatic with
  | some name, false => scope.bind { name := "this", type := .of (.ofClass name), site }
  | _, _ => scope

/-- What functions, methods and closures are declared with. -/
structure Signature where
  parameters : List ParameterDecl
  returnType : Option String
  isStatic : Bool
  body : Option Node

/-- The callable that a declaration stands for. -/
def Signature.declared (signature : Signature) (key : CallableKey) (name : String)
    (owner : Option String) (site : Site) : Except LoadError Callable := do
  let returnType ← match signature.returnType with
    | some raw => TypeSet.parse raw owner
    | none => pure ∅
  let parameters ← signature.parameters.mapM (ParameterDecl.declared owner site)
  return {
    key
    name
    owner
    parameters
    returnType
    site
    isStatic := signature.isStatic
    body := signature.body
    scope := entryScope owner signature.isStatic parameters site }

/-- Changes of the symbol table that may be cut short by an error. -/
abbrev Collect := ExceptT LoadError (StateM SymbolTable)

/-- The callable that a declaration stands for, or the end of the collection. -/
def Collect.declared (signature : Signature) (key : CallableKey) (name : String)
    (owner : Option String) (site : Site) : Collect Callable :=
  MonadExcept.ofExcept (signature.declared key name owner site)

/-- Enters what a node itself declares. The result is the class around the node's parts, or none when
the parts are not to be looked at: those of a declaration that came too late, and those of a method
without a class. -/
def register (file : String) (owner : Option String) (node : Node) :
    Collect (Option (Option String)) := do
  let site : Site := ⟨file, node.line⟩
  match node.kind with
  | .classDecl decl =>
    let declared : Class := { Class.declared decl.name decl.parent site with isTrait := decl.isTrait }
    if (← get).hasClass declared.name then return none
    modify (·.addClass declared)
    return some (some declared.name)
  | .functionDecl decl =>
    let signature : Signature := ⟨decl.parameters, decl.returnType, false, some decl.body⟩
    let declared ← Collect.declared signature (.ofFunction decl.name) (Text.unrooted decl.name)
      owner site
    if !(← get).isNewFunction declared then return none
    modify (·.addFunction declared)
    return some owner
  | .methodDecl decl =>
    match owner with
    | none => return none
    | some name =>
      let signature : Signature := ⟨decl.parameters, decl.returnType, decl.isStatic, decl.body⟩
      let declared ← Collect.declared signature (.ofMethod name decl.name)
        (name ++ "::" ++ decl.name) owner site
      modify (·.modifyClass name (·.addMethod declared))
      return some owner
  | .closure decl =>
    let signature : Signature := ⟨decl.parameters, decl.returnType, decl.isStatic, some decl.body⟩
    let declared ← Collect.declared signature (.ofClosure file node.line) "\x7bclosure\x7d" owner
      site
    modify (·.addFunction declared)
    return some owner
  | .propertyDecl decl =>
    match owner with
    | none => return some owner
    | some name =>
      let type ← match decl.annotation with
        | some raw => MonadExcept.ofExcept (TypeSet.parse raw owner)
        | none => pure ((decl.default.map constantType).getD ∅)
      modify (·.modifyClass name
        (·.addProperty { name := decl.name, type, isStatic := decl.isStatic, site }))
      return some owner
  | .classConstDecl decl =>
    match owner with
    | none => return some owner
    | some name =>
      modify (·.modifyClass name
        (·.addConstant { name := decl.name, type := constantType decl.value, site }))
      return some owner
  | .constDecl decl =>
    modify (·.addConstant
      { name := Text.unrooted decl.name, type := constantType decl.value, site })
    return some owner
  | _ => return some owner

/-- Enters everything that a node and its parts declare, inside the class `owner` if there is one. -/
def collectNode (file : String) (owner : Option String) (node : Node) : Collect Unit := do
  match ← register file owner node with
  | none => return
  | some inner => node.children.attach.forM fun child => collectNode file inner child.val
termination_by sizeOf node
decreasing_by exact Node.sizeOf_children_mem child.property

/-- Enters the declarations of a file. The table holds what was entered, also after an error. -/
def SymbolTable.collect (symbols : SymbolTable) (file : String) (root : Node) :
    Except LoadError Unit × SymbolTable :=
  (collectNode file none root).run.run symbols

/-- Enters the declarations of units in turn, up to the first error. -/
def SymbolTable.collectUnits (symbols : SymbolTable) : List SourceUnit →
    Except LoadError SymbolTable
  | [] => .ok symbols
  | unit :: rest =>
    match symbols.collect unit.path unit.root with
    | (.ok (), symbols) => symbols.collectUnits rest
    | (.error error, _) => .error error

end PhpCheck
