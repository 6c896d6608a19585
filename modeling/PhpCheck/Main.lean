import PhpCheck.Command.Run

/-!
# The executable

The command on the file system of the machine.
-/

namespace PhpCheck.Command

/-- What stands behind a failed access to the file system. -/
def DiskError.ofError : IO.Error → DiskError
  | .noFileOrDirectory .. => .missing
  | .inappropriateType _ code _ => if code = 20 then .notFolder else .isFolder
  | error => .other (toString error)

/-- The outcome of an access to the file system. -/
def attempt {α : Type} (action : IO α) : IO (Except DiskError α) := do
  try return .ok (← action)
  catch error => return .error (.ofError error)

/-- The files in a folder and in the folders below it. -/
partial def filesBelow (folder : String) : IO (List String) := do
  let entries ← ((← IO.currentDir) / folder).readDir
  let below ← entries.toList.mapM fun entry => do
    let path := Path.join folder entry.fileName
    match (← entry.path.symlinkMetadata).type with
    | .dir => filesBelow path
    | .file => return [path]
    | _ => return []
  return below.flatten

def machineDisk : Disk IO where
  workingFolder := return (← IO.currentDir).toString
  kindOf path := attempt do
    if (← ((← IO.currentDir) / path).metadata).type matches .dir then return .folder else return .file
  read path := attempt do IO.FS.readFile ((← IO.currentDir) / path)
  filesBelow := filesBelow

end PhpCheck.Command

/-- Runs the command, writes its output and exits with its status. -/
def main (arguments : List String) : IO UInt32 := do
  let ending ← PhpCheck.Command.run PhpCheck.Command.machineDisk arguments
  (← IO.getStdout).putStr ending.out
  (← IO.getStderr).putStr ending.err
  return ending.status
