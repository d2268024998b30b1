import TableForest.Command.Run

/-!
# The command line

The program takes its arguments for a command, runs it on the files that its paths lead to, and puts what
has changed back.  It prints what the command shows; a failure goes to the standard error, and the exit
code tells the two from arguments that ask for no command.  The system is asked for files by text here, so
what is not named by a text is not found.
-/

namespace TableForest

namespace FileSystem

/-- Directories one in another, and relative paths start in the innermost. -/
def startingIn (dir : Location) : FileSystem :=
  ⟨(List.range dir.length).map fun n => (dir.take (n + 1), .directory), dir⟩

def pathOf (l : Location) : Path :=
  ⟨Path.slash :: [Path.slash].intercalate l⟩

/-- The nodes that are new or changed since an earlier state. -/
def changesSince (fs earlier : FileSystem) : List (Location × FileNode) :=
  fs.nodes.filter fun e => !decide (earlier.node? e.1 = some e.2)

end FileSystem

/-- The files as far as the given paths lead, the outermost of the directories above them first. -/
def gather (fs : FileSystem) (paths : List Path) : IO FileSystem :=
  (paths.flatMap fun p => (p :: p.parents).reverse).foldlM (fun fs p => do
    let some l := (fs.locate p).toOption | return fs
    let some file := (FileSystem.pathOf l).text? | return fs
    if (fs.node? l).isSome then return fs
    match ← (IO.FS.readBinFile file).toBaseIO with
    | .ok content => return fs.put l (.file content.toList)
    | .error (.noFileOrDirectory ..) => return fs
    | .error _ => return fs.put l .directory) fs

/-- Puts a node where it belongs among the real files. -/
def putBack (l : Location) (n : FileNode) : IO Unit := do
  let some name := (FileSystem.pathOf l).text? | return
  match n with
  | .file content => IO.FS.writeBinFile name ⟨content.toArray⟩
  | .directory => IO.FS.createDir name

end TableForest

open TableForest in
def main (args : List String) : IO UInt32 := do
  let here ← IO.currentDir
  let args := args.map Utf8.encode
  let paths := ((Command.ofArguments? args).map Command.paths).getD []
  let earlier ← gather (.startingIn (Path.ofText here.toString).names) paths
  let (answer, files) := Command.line earlier args
  (files.changesSince earlier).forM fun (l, n) => putBack l n
  match answer with
  | .ok text =>
    IO.print text
    return 0
  | .error (some e) =>
    IO.eprintln s!"error: {e.message}"
    return 1
  | .error none =>
    IO.eprintln "error: these arguments ask for no command"
    return 2
