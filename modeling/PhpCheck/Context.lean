import PhpCheck.Symbol.Callable

/-!
# Where the analysis stands

A context is the file, line, class and callable around a place of the program, with the variables that
are open there. Contexts are values: entering a body makes a new one.
-/

namespace PhpCheck

/-- The surroundings of a place of the program. -/
structure Context where
  file : String
  line : Line := 0
  scope : Scope := {}
  owner : Option String := none
  callable : Option CallableKey := none
  deriving DecidableEq

namespace Context

def site (context : Context) : Site := ⟨context.file, context.line⟩

/-- Whether the place is outside of every callable. -/
def isTopLevel (context : Context) : Bool := context.callable.isNone

def atLine (context : Context) (line : Line) : Context := { context with line }

def inClass (context : Context) (owner : String) : Context := { context with owner := some owner }

/-- The context in the body of a callable with its own scope, around which are the globals. -/
def enter (context : Context) (key : CallableKey) (scope : Scope) : Context :=
  { context with scope := scope.within context.scope.globals, callable := some key }

def find? (context : Context) (name : String) : Option Variable := context.scope.find? name

/-- The type of the variable of that name; unknown if there is none. -/
def typeOf (context : Context) (name : String) : TypeSet := context.scope.typeOf name

/-- The context with a variable of that name, declared here if it is new. -/
def declare (context : Context) (name : String) : Context :=
  { context with scope := context.scope.declare name context.site }

/-- The context with types added to a variable, declared here if it is new. -/
def assign (context : Context) (name : String) (types : TypeSet) : Context :=
  { context with scope := context.scope.assign name context.site types }

/-- The context with types added to a variable, if there is one of that name. -/
def widen (context : Context) (name : String) (types : TypeSet) : Context :=
  { context with scope := context.scope.widen name types }

/-- Equality of contexts in which the order of variables does not count. -/
def same (a b : Context) : Bool :=
  a.file == b.file && a.line == b.line && a.scope.same b.scope && a.owner == b.owner &&
    a.callable == b.callable

end Context

end PhpCheck
