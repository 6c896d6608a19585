import PhpCheck.SymbolTable.Basic

/-!
# What the language itself declares

A handful of functions with their signatures, and the class of closures.
-/

namespace PhpCheck.SymbolTable

/-- A parameter of a function of the language. -/
def builtinParameter (name : String) (types : List Ty) : Parameter :=
  { name, type := .ofList types, site := .internal }

def optionalParameter (name : String) (types : List Ty) : Parameter :=
  { builtinParameter name types with isOptional := true }

def referenceParameter (name : String) (types : List Ty) : Parameter :=
  { builtinParameter name types with byReference := true }

/-- The functions of the language that are known. -/
def builtinFunctions : List Callable :=
  [.internal "strlen" [builtinParameter "string" [.string]] (.of .int),
    .internal "count" [builtinParameter "value" [.array], optionalParameter "mode" [.int]]
      (.of .int),
    .internal "is_array" [builtinParameter "value" [.mixed]] (.of .bool),
    .internal "array_push"
      [referenceParameter "array" [.array], (builtinParameter "values" [.mixed]).variadic]
      (.of .int),
    .internal "sprintf"
      [builtinParameter "format" [.string], (builtinParameter "values" [.mixed]).variadic]
      (.of .string),
    .internal "implode" [builtinParameter "separator" [.string], builtinParameter "array" [.array]]
      (.of .string),
    .internal "in_array"
      [builtinParameter "needle" [.mixed], builtinParameter "haystack" [.array],
        optionalParameter "strict" [.bool]]
      (.of .bool),
    .internal "preg_match"
      [builtinParameter "pattern" [.string], builtinParameter "subject" [.string],
        { referenceParameter "matches" [.arrayOf .string] with isOptional := true }]
      (.ofList [.int, .bool])]

/-- The table before anything of a program is declared. -/
def builtin : SymbolTable :=
  (builtinFunctions.foldl addFunction {}).addClass (.declared "Closure" none .internal)

end PhpCheck.SymbolTable
