import PhpCheck.Path

/-!
# Access to files

What the command needs of a file system, in a monad of the caller's choice. `FileTree` is a file system
that is a value.
-/

namespace PhpCheck.Command

/-- Why a path leads to nothing that can be used. -/
inductive DiskError where
  | missing
  /-- The path goes on after a file. -/
  | notFolder
  /-- A folder has no text. -/
  | isFolder
  | other (text : String)
  deriving DecidableEq

def DiskError.message : DiskError → String
  | .missing => "No such file or directory (os error 2)"
  | .notFolder => "Not a directory (os error 20)"
  | .isFolder => "Is a directory (os error 21)"
  | .other text => text

/-- What a path may lead to. -/
inductive EntryKind where
  | file
  | folder
  deriving DecidableEq

/-- A file system. -/
structure Disk (m : Type → Type) where
  /-- The folder from which relative paths start. -/
  workingFolder : m String
  /-- What a path leads to. -/
  kindOf : String → m (Except DiskError EntryKind)
  /-- The text of a file. -/
  read : String → m (Except DiskError String)
  /-- The files in a folder and in the folders below it, with their names joined to its path. -/
  filesBelow : String → m (List String)

/-- A file with its text, or a folder with its entries by name. -/
inductive Entry where
  | file (text : String)
  | folder (entries : List (String × Entry))

namespace Entry

instance : Inhabited Entry := ⟨.folder []⟩

def kind : Entry → EntryKind
  | .file _ => .file
  | .folder _ => .folder

def read : Entry → Except DiskError String
  | .file text => .ok text
  | .folder _ => .error .isFolder

mutual

/-- The files of an entry, whose own path is given. -/
def filesFrom (path : String) : Entry → List String
  | .file _ => [path]
  | .folder entries => filesOf path entries

/-- The files of the entries of a folder, whose path is given. -/
def filesOf (path : String) : List (String × Entry) → List String
  | [] => []
  | (name, entry) :: rest => entry.filesFrom (Path.join path name) ++ filesOf path rest

end

/-- The entry changed at the place to which names lead; folders are made on the way. -/
def alter (f : Option Entry → Entry) : List String → Option Entry → Entry
  | [], entry => f entry
  | name :: names, entry =>
    let entries := match entry with
      | some (.folder entries) => entries
      | _ => []
    .folder (entries.filter (·.1 != name) ++ [(name, alter f names (entries.lookup name))])

end Entry

/-- A file system that is a value. -/
structure FileTree where
  root : Entry := .folder []
  workingFolder : String

namespace FileTree

/-- The tree changed at a path below the working folder. -/
def alter (tree : FileTree) (path : String) (f : Option Entry → Entry) : FileTree :=
  let names := (Path.components (Path.join tree.workingFolder path)).filterMap fun
    | .name text => some text
    | _ => none
  { tree with root := Entry.alter f names (some tree.root) }

def addFile (tree : FileTree) (path text : String) : FileTree := tree.alter path fun _ => .file text

/-- The tree with a folder more, if there is none. -/
def addFolder (tree : FileTree) (path : String) : FileTree :=
  tree.alter path (·.getD (.folder []))

/-- Goes on by one segment of a path from an entry, the folders around which are given. -/
def step (place : Entry × List Entry) (segment : String) :
    Except DiskError (Entry × List Entry) :=
  match place.1 with
  | .file _ => .error .notFolder
  | .folder entries =>
    match segment with
    | "" | "." => .ok place
    | ".." =>
      match place.2 with
      | [] => .ok place
      | outer :: around => .ok (outer, around)
    | name =>
      match entries.lookup name with
      | some entry => .ok (entry, place.1 :: place.2)
      | none => .error .missing

/-- The entry to which a path leads. -/
def find (tree : FileTree) (path : String) : Except DiskError Entry :=
  if path.isEmpty then .error .missing
  else
    let absolute := if Path.isAbsolute path then path else Path.join tree.workingFolder path
    Prod.fst <$> (Path.segments absolute).foldlM step (tree.root, [])

def disk (tree : FileTree) : Disk Id where
  workingFolder := tree.workingFolder
  kindOf path := (tree.find path).map Entry.kind
  read path := (tree.find path).bind Entry.read
  filesBelow path :=
    match tree.find path with
    | .ok entry => entry.filesFrom path
    | .error _ => []

end FileTree

end PhpCheck.Command
