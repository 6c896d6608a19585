import PhpCheck.SymbolTable.Basic

/-!
# Inheritance

The parent chain of a class, and members looked up along it. The chain ends at an unknown class, and
where it would come back to a class that is already on it.
-/

namespace PhpCheck.SymbolTable

def parent? (s : SymbolTable) (name : String) : Option String := s.class? name >>= Class.parent

/-- Whether `current` brings a chain back to where it has been: to the class that it starts from, or to one
that it has passed. -/
def comesBack (start : String) (passed : List String) (current : String) : Bool :=
  Text.canonical current == Text.canonical start ||
    passed.any fun name => Text.sameIgnoringCase name current

/-- The parents from `current` upward, until the chain comes back. -/
def ancestorsFrom (s : SymbolTable) (start : String) : Nat → List String → Option String → List String
  | 0, _, _ => []
  | _ + 1, _, none => []
  | fuel + 1, passed, some current =>
    if comesBack start passed current then []
    else current :: ancestorsFrom s start fuel (current :: passed) (s.parent? current)

/-- The parent chain of a class, nearest first. Every step is made from another class of the table, so
that the number of classes bounds the chain. -/
def ancestors (s : SymbolTable) (name : String) : List String :=
  ancestorsFrom s name (s.classes.size + 1) [] (s.parent? name)

/-- The class and its ancestors, as far as they are known. -/
def lineage (s : SymbolTable) (name : String) : List String :=
  (name :: s.ancestors name).filter s.hasClass

/-- The key of the method that the class or the nearest ancestor has under a name. -/
def findMethod (s : SymbolTable) (owner name : String) : Option CallableKey :=
  (s.lineage owner).findSome? fun c => (s.class? c >>= (·.method? name)).map Callable.key

/-- The nearest class of the lineage that has a property. -/
def findProperty (s : SymbolTable) (owner name : String) : Option String :=
  (s.lineage owner).find? fun c => (s.class? c >>= (·.property? name)).isSome

/-- The nearest class of the lineage that has a constant. -/
def findClassConstant (s : SymbolTable) (owner name : String) : Option String :=
  (s.lineage owner).find? fun c => (s.class? c >>= (·.constant? name)).isSome

/-- The property that a class has or inherits. -/
def property? (s : SymbolTable) (owner name : String) : Option Property :=
  s.findProperty owner name >>= s.class? >>= (·.property? name)

/-- The table with the property changed that a class has or inherits. -/
def modifyProperty (s : SymbolTable) (owner name : String) (f : Property → Property) :
    SymbolTable :=
  match s.findProperty owner name with
  | some holder => s.modifyClass holder fun c => { c with properties := c.properties.modify name f }
  | none => s

/-- The table with the constant changed that a class has or inherits. -/
def modifyClassConstant (s : SymbolTable) (owner name : String) (f : Constant → Constant) :
    SymbolTable :=
  match s.findClassConstant owner name with
  | some holder => s.modifyClass holder fun c => { c with constants := c.constants.modify name f }
  | none => s

/-- The table in which a known class has or inherits a property of that name: if it does not yet, the
class itself gets one of unknown type. -/
def ensureProperty (s : SymbolTable) (owner name : String) (site : Site) : SymbolTable :=
  let holder := (s.findProperty owner name).getD owner
  s.modifyClass holder fun c => c.addProperty { name, type := ∅, site }

/-- The table with types added to a property of a known class, which gets one if need be. -/
def widenProperty (s : SymbolTable) (owner name : String) (site : Site) (types : TypeSet) :
    SymbolTable :=
  (s.ensureProperty owner name site).modifyProperty owner name (·.widen types)

/-- The type with the ancestors of its classes added. -/
def expand (s : SymbolTable) (types : TypeSet) : TypeSet :=
  types.merge (.ofList ((types.classNames.flatMap s.ancestors).map Ty.ofClass))

/-- Whether a value of the one type may stand where the other is expected: some type it may have fits
some type that is expected. What is unknown or mixed fits. -/
def castsTo (s : SymbolTable) (source target : TypeSet) : Bool :=
  source.isEmpty || target.isEmpty || source.contains .mixed || target.contains .mixed ||
    (s.expand source).members.any fun a => target.members.any a.castsTo

end PhpCheck.SymbolTable
