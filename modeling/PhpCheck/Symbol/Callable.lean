import PhpCheck.Scope
import PhpCheck.Text.Case

/-!
# Functions, methods and closures

A callable is filed under a `CallableKey`. Names are stored in lower case in it, because the language
looks functions and methods up without regard to case.
-/

namespace PhpCheck

/-- The identity of a function, closure or method. -/
inductive CallableKey where
  | function (name : String)
  | method (owner name : String)
  deriving DecidableEq

namespace CallableKey

def ofFunction (name : String) : CallableKey := .function (Text.canonical name)

def ofMethod (owner name : String) : CallableKey :=
  .method (Text.canonical owner) (Text.lowered name)

/-- The name given to the closure literal at a place. -/
def closureName (file : String) (line : Line) : String :=
  "\x7bclosure\x7d:" ++ file ++ ":" ++ toString line.toNat

def ofClosure (file : String) (line : Line) : CallableKey := .function (closureName file line)

def text : CallableKey → String
  | .function name => name
  | .method owner name => owner ++ "::" ++ name

end CallableKey

structure Parameter where
  name : String
  type : TypeSet
  byReference : Bool := false
  isOptional : Bool := false
  isVariadic : Bool := false
  site : Site
  deriving DecidableEq

namespace Parameter

/-- The parameter made variadic, and therefore optional. -/
def variadic (p : Parameter) : Parameter := { p with isVariadic := true, isOptional := true }

/-- The type of the variable that a parameter of the given type is bound to: a variadic one collects
its arguments in an array. -/
def boundType (p : Parameter) : TypeSet := if p.isVariadic then p.type.asArray else p.type

/-- How many parameters need an argument. -/
def requiredCount (parameters : List Parameter) : Nat :=
  parameters.countP fun p => !p.isOptional

/-- Whether the last parameter takes any number of arguments. -/
def endsVariadic (parameters : List Parameter) : Bool :=
  match parameters.getLast? with
  | some last => last.isVariadic
  | none => false

/-- The position of the parameter that takes the argument at `index`; a variadic one at the end takes
all that are left over. -/
def position? (parameters : List Parameter) (index : Nat) : Option Nat :=
  if index < parameters.length then some index
  else if endsVariadic parameters then some (parameters.length - 1)
  else none

/-- The parameter that takes the argument at `index`. -/
def receiving? (parameters : List Parameter) (index : Nat) : Option Parameter :=
  position? parameters index >>= fun i => parameters[i]?

end Parameter

/-- A function, method or closure. -/
structure Callable where
  key : CallableKey
  /-- The name in messages: `f`, or `C::m` for a method. -/
  name : String
  /-- The class in whose declaration it stands. -/
  owner : Option String := none
  parameters : List Parameter := []
  returnType : TypeSet := ∅
  /-- Whether the return type is gathered from return statements instead of declared. -/
  returnInferred : Bool := false
  uses : Nat := 0
  site : Site
  isInternal : Bool := false
  isStatic : Bool := false
  body : Option Node := none
  /-- The variables that are bound when the body is entered. -/
  scope : Scope := {}

namespace Callable

/-- A function of the language itself. -/
def internal (name : String) (parameters : List Parameter) (returnType : TypeSet) : Callable :=
  { key := .ofFunction name, name, parameters, returnType, site := .internal, isInternal := true }

def recordUse (c : Callable) : Callable := { c with uses := c.uses + 1 }

/-- The callable with types added to its return type, which is from now on gathered. -/
def gatherReturn (c : Callable) (types : TypeSet) : Callable :=
  { c with returnInferred := true, returnType := c.returnType.merge types }

end Callable

end PhpCheck
