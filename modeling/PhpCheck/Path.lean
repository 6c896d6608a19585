import PhpCheck.Text.Split

/-!
# File paths

A path is a text with slashes between its parts. Paths are ordered by their components, so that a
folder comes before the files that have its name at the front of theirs.
-/

namespace PhpCheck.Path

/-- A part of a path that counts. -/
inductive Component where
  | root
  /-- A single full stop, which counts only at the front. -/
  | here
  /-- Two full stops. -/
  | up
  | name (text : String)
  deriving DecidableEq

namespace Component

def text : Component → String
  | .root => "/"
  | .here => "."
  | .up => ".."
  | .name text => text

/-- The position of the component among those of other sorts. -/
def rank : Component → Nat
  | .root => 0
  | .here => 1
  | .up => 2
  | .name _ => 3

/-- Whether a component comes before another one. -/
def before : Component → Component → Bool
  | .name a, .name b => a < b
  | a, b => a.rank < b.rank

end Component

/-- The texts between the slashes of a path. -/
def segments (path : String) : List String := (Text.pieces '/' path.toList).map String.ofList

/-- The components of segments that are not at the front of a path. -/
def innerComponents (segments : List String) : List Component :=
  segments.filterMap fun
    | "" | "." => none
    | ".." => some .up
    | text => some (.name text)

/-- The components of a path. Repeated slashes and inner full stops do not count. -/
def components (path : String) : List Component :=
  match segments path with
  | "" :: inner => if inner.isEmpty then [] else .root :: innerComponents inner
  | "." :: inner => .here :: innerComponents inner
  | all => innerComponents all

def isAbsolute (path : String) : Bool := path.toList.head? == some '/'

/-- Whether two paths have the same components. -/
def same (a b : String) : Bool := components a == components b

/-- Whether components come before other ones, the first difference deciding. -/
def componentsBefore : List Component → List Component → Bool
  | _, [] => false
  | [], _ :: _ => true
  | a :: as, b :: bs => a.before b || (a == b && componentsBefore as bs)

/-- Whether a path does not come after another one. -/
def precedes (a b : String) : Bool := !componentsBefore (components b) (components a)

/-- Paths in order; of several with the same components the first one is kept. -/
def sorted (paths : List String) : List String := (paths.eraseDupsBy same).mergeSort precedes

/-- The path of an entry of a folder. -/
def join (folder name : String) : String :=
  if folder.toList.getLast? == some '/' then folder ++ name else folder ++ "/" ++ name

/-- What follows the last full stop of a file's name, unless the name starts with that one. -/
def extension? (name : String) : Option String :=
  match (Text.pieces '.' name.toList).reverse with
  | last :: front :: more =>
    if front.isEmpty && more.isEmpty then none else some (String.ofList last)
  | _ => none

/-- The way from one place to another, both given by their components. -/
def route : List Component → List Component → List Component
  | [], target => target
  | base, [] => base.map fun _ => .up
  | b :: base, t :: target =>
    if b = t then route base target else .up :: (base.map fun _ => .up) ++ t :: target

/-- A path seen from a folder: an absolute one is written as the way from there. -/
def seenFrom (folder path : String) : String :=
  if isAbsolute path then
    "/".intercalate ((route (components folder) (components path)).map Component.text)
  else path

end PhpCheck.Path
