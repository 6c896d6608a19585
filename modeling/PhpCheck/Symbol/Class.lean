import PhpCheck.Symbol.Callable

/-!
# Classes and their members
-/

namespace PhpCheck

structure Property where
  name : String
  type : TypeSet
  isStatic : Bool := false
  uses : Nat := 0
  site : Site
  deriving DecidableEq

/-- A global constant or a constant of a class. -/
structure Constant where
  name : String
  type : TypeSet
  uses : Nat := 0
  site : Site
  deriving DecidableEq

def Property.recordUse (p : Property) : Property := { p with uses := p.uses + 1 }

def Property.widen (p : Property) (types : TypeSet) : Property :=
  { p with type := p.type.merge types }

def Constant.recordUse (c : Constant) : Constant := { c with uses := c.uses + 1 }

/-- A class or trait. Methods are filed under their names in lower case, properties and constants
under their names as written. -/
structure Class where
  name : String
  parent : Option String := none
  isTrait : Bool := false
  uses : Nat := 0
  site : Site
  methods : Table Callable := ∅
  properties : Table Property := ∅
  constants : Table Constant := ∅

namespace Class

/-- A class without members; the names lose the namespace separators in front. -/
def declared (name : String) (parent : Option String) (site : Site) : Class :=
  { name := Text.unrooted name, parent := parent.map Text.unrooted, site }

def recordUse (c : Class) : Class := { c with uses := c.uses + 1 }

/-- The type of the objects of the class. -/
def type (c : Class) : TypeSet := .of (.ofClass c.name)

/-- The name under which a method is filed. -/
def methodKey (m : Callable) : String := Text.lowered (Text.memberPart m.name)

/-- The method of that name, in whatever case. -/
def method? (c : Class) (name : String) : Option Callable := c.methods.get? (Text.lowered name)

def property? (c : Class) (name : String) : Option Property := c.properties.get? name

def constant? (c : Class) (name : String) : Option Constant := c.constants.get? name

/-- The class with a method more, unless it has one of that name. -/
def addMethod (c : Class) (m : Callable) : Class :=
  { c with methods := c.methods.add (methodKey m) m }

/-- The class with a property more, unless it has one of that name. -/
def addProperty (c : Class) (p : Property) : Class :=
  { c with properties := c.properties.add p.name p }

/-- The class with a constant more, unless it has one of that name. -/
def addConstant (c : Class) (k : Constant) : Class :=
  { c with constants := c.constants.add k.name k }

end Class

end PhpCheck
