import PhpCheck.Site
import PhpCheck.Table
import PhpCheck.TypeSet.Basic

/-!
# Variables and their scopes

A scope is a chain of frames, innermost first, that ends with the global frame of a file. Variables
are looked up in the innermost frame only, since a function does not see the locals around it.
-/

namespace PhpCheck

structure Variable where
  name : String
  type : TypeSet
  site : Site
  /-- The caller's variable that a by-reference parameter stands for, while a call is tried out. -/
  referenceTo : Option String := none
  deriving DecidableEq

/-- The variables of one function or of the top level of a file, in the order of their first
binding. -/
abbrev Frame := Table Variable

/-- The frames that are open at a place of the program. -/
structure Scope where
  frame : Frame := ∅
  /-- The frames around the innermost one, ending with the global one. -/
  enclosing : List Frame := []
  deriving DecidableEq

namespace Scope

instance : Inhabited Scope := ⟨{}⟩

/-- The variable of that name in the innermost frame. -/
def find? (scope : Scope) (name : String) : Option Variable := scope.frame.get? name

/-- The type of the variable of that name; unknown if there is none. -/
def typeOf (scope : Scope) (name : String) : TypeSet :=
  ((scope.find? name).map Variable.type).getD ∅

/-- The scope with a variable bound, in place of one of the same name. -/
def bind (scope : Scope) (v : Variable) : Scope :=
  { scope with frame := scope.frame.insert v.name v }

/-- The scope with a variable of that name, of unknown type if it is new. -/
def declare (scope : Scope) (name : String) (site : Site) : Scope :=
  { scope with frame := scope.frame.add name { name, type := ∅, site } }

/-- The scope with the types added to the variable of that name, if there is one. -/
def widen (scope : Scope) (name : String) (types : TypeSet) : Scope :=
  { scope with frame := scope.frame.modify name fun v => { v with type := v.type.merge types } }

/-- The scope with the types added to the variable of that name, which is declared if it is new. -/
def assign (scope : Scope) (name : String) (site : Site) (types : TypeSet) : Scope :=
  (scope.declare name site).widen name types

/-- Whether the innermost frame is the global one. -/
def isGlobal (scope : Scope) : Bool := scope.enclosing.isEmpty

/-- The global frame at the end of the chain, as a scope of its own. -/
def globals (scope : Scope) : Scope := { frame := scope.enclosing.getLast?.getD scope.frame }

/-- The scope with the chain of another one around its innermost frame. -/
def within (scope outer : Scope) : Scope :=
  { scope with enclosing := outer.frame :: outer.enclosing }

/-- The innermost frame on its own. -/
def detached (scope : Scope) : Scope := { frame := scope.frame }

/-- Equality of scopes in which the order of variables does not count. -/
def same (a b : Scope) : Bool :=
  a.frame.sameBindings b.frame && a.enclosing.length == b.enclosing.length &&
    (a.enclosing.zip b.enclosing).all fun (f, g) => f.sameBindings g

end Scope

end PhpCheck
