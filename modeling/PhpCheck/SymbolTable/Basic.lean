import PhpCheck.Symbol.Class

/-!
# The symbol table

All classes, functions, closures and global constants that a run knows. The first declaration of a
name wins.
-/

namespace PhpCheck

/-- The declared program. Classes and functions are filed under their canonical names, closures under
the name made from their place, constants under their names as written. -/
structure SymbolTable where
  classes : Table Class := ∅
  functions : Table Callable := ∅
  constants : Table Constant := ∅

namespace SymbolTable

/-! ### Classes -/

def class? (s : SymbolTable) (name : String) : Option Class := s.classes.get? (Text.canonical name)

def hasClass (s : SymbolTable) (name : String) : Bool := s.classes.contains (Text.canonical name)

/-- The table with a class more, unless there is one of that name. -/
def addClass (s : SymbolTable) (c : Class) : SymbolTable :=
  { s with classes := s.classes.add (Text.canonical c.name) c }

def modifyClass (s : SymbolTable) (name : String) (f : Class → Class) : SymbolTable :=
  { s with classes := s.classes.modify (Text.canonical name) f }

/-! ### Functions, closures and methods -/

def function? (s : SymbolTable) (name : String) : Option Callable :=
  s.functions.get? (Text.canonical name)

/-- Whether the key of a callable is free for a function. -/
def isNewFunction (s : SymbolTable) (f : Callable) : Bool :=
  match f.key with
  | .function name => !s.functions.contains name
  | .method .. => false

/-- The table with a function or closure more, unless its key is taken. -/
def addFunction (s : SymbolTable) (f : Callable) : SymbolTable :=
  match f.key with
  | .function name => { s with functions := s.functions.add name f }
  | .method .. => s

/-- The callable filed under a key. -/
def callable? (s : SymbolTable) : CallableKey → Option Callable
  | .function name => s.functions.get? name
  | .method owner name => s.classes.get? owner >>= fun c => c.methods.get? name

/-- All functions, closures and methods. -/
def callables (s : SymbolTable) : List Callable :=
  s.functions.values ++ s.classes.values.flatMap (·.methods.values)

def modifyCallable (s : SymbolTable) (key : CallableKey) (f : Callable → Callable) : SymbolTable :=
  match key with
  | .function name => { s with functions := s.functions.modify name f }
  | .method owner name =>
    { s with classes := s.classes.modify owner fun c => { c with methods := c.methods.modify name f } }

/-! ### Global constants -/

def constant? (s : SymbolTable) (name : String) : Option Constant :=
  s.constants.get? (Text.unrooted name)

/-- The table with a constant more, unless there is one of that name. -/
def addConstant (s : SymbolTable) (k : Constant) : SymbolTable :=
  { s with constants := s.constants.add k.name k }

def modifyConstant (s : SymbolTable) (name : String) (f : Constant → Constant) : SymbolTable :=
  { s with constants := s.constants.modify (Text.unrooted name) f }

end SymbolTable

end PhpCheck
