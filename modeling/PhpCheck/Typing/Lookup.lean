import PhpCheck.Context
import PhpCheck.Diagnostic.Finding
import PhpCheck.SymbolTable.Lineage

/-!
# From names to symbols

What the names in a program stand for, at a place of it. Nothing is changed by looking a name up.
-/

namespace PhpCheck.SymbolTable

/-- The declared name of a class. -/
def knownClass (s : SymbolTable) (name : String) : Except LookupError String :=
  match s.class? name with
  | some c => .ok c.name
  | none => .error (.undefinedClass name)

/-- The declared name of the class that a class reference stands for: a name, or one of `self`,
`static` and `parent`. -/
def resolveClass (s : SymbolTable) (context : Context) (reference : Node) :
    Except LookupError String :=
  match reference.kind with
  | .identifier raw =>
    let name := Text.unrooted raw
    match Text.lowered name with
    | "self" | "static" =>
      match context.owner with
      | some owner => s.knownClass owner
      | none => .error (.notInClass name)
    | "parent" =>
      match context.owner with
      | some owner =>
        match s.parent? owner with
        | some parent => s.knownClass parent
        | none => .error (.noParent owner)
      | none => .error (.notInClass name)
    | _ => s.knownClass name
  | _ => .error .computedName

/-- The function that a name stands for. A name in a namespace may also mean the global function with
its last part as name. -/
def resolveFunction (s : SymbolTable) (raw : String) : Except LookupError CallableKey :=
  let name := Text.unrooted raw
  match (s.function? name).or (Text.shortName? name >>= s.function?) with
  | some f => .ok f.key
  | none => .error (.undefinedFunction name)

/-- The method that a class has or inherits under a name. -/
def resolveMethod (s : SymbolTable) (owner name : String) : Except LookupError CallableKey :=
  match s.findMethod owner name with
  | some key => .ok key
  | none => .error (.undefinedMethod owner name)

/-- The class that a static property belongs to. -/
def resolveStaticProperty (s : SymbolTable) (context : Context) (reference : Node) (name : Name) :
    Except LookupError (String × String) :=
  match name with
  | .computed _ => .error .computedName
  | .literal property => do
    let owner ← s.resolveClass context reference
    match s.findProperty owner property with
    | some holder => .ok (holder, property)
    | none => .error (.undefinedProperty owner property)

/-- The global constant that a name stands for. -/
def resolveConstant (s : SymbolTable) (name : String) : Except LookupError Constant :=
  match s.constant? name with
  | some c => .ok c
  | none => .error (.undefinedConstant name)

/-- The class that a class constant belongs to. -/
def resolveClassConstant (s : SymbolTable) (context : Context) (reference : Node) (name : String) :
    Except LookupError String := do
  let owner ← s.resolveClass context reference
  match s.findClassConstant owner name with
  | some holder => .ok holder
  | none => .error (.undefinedConstant (owner ++ "::" ++ name))

/-- The type that callables may return between them. -/
def returnTypeOf (s : SymbolTable) (keys : List CallableKey) : TypeSet :=
  keys.foldl (fun types key => types.merge (((s.callable? key).map Callable.returnType).getD ∅)) ∅

/-- The type that a property has in classes between them. -/
def propertyTypeOf (s : SymbolTable) (owners : List String) (name : String) : TypeSet :=
  owners.foldl (fun types owner => types.merge (((s.property? owner name).map Property.type).getD ∅))
    ∅

end PhpCheck.SymbolTable
