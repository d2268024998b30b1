import TableForest.Files.Path

/-!
# File systems

A file system is a value: files and directories by location, and the directory that relative paths start
from.  A path is followed name by name, so `..` behind a missing directory leads nowhere.  Writing
replaces or makes a file in a directory that is there; `createDirectories` makes the missing ones.
-/

namespace TableForest

/-- Where something stands: the names from the root. -/
abbrev Location := List Path.Segment

/-- What stands at a location. -/
inductive FileNode where
  | file (content : Bytes)
  | directory
  deriving DecidableEq

/-- Why an operation on files fails. -/
inductive FileError where
  | notFound
  | notADirectory
  | isADirectory
  | alreadyExists
  | nameTooLong
  | invalidPath
  | notText
  deriving DecidableEq, Repr

/-- Files and directories, and where relative paths start. -/
structure FileSystem where
  nodes : List (Location × FileNode)
  workingDirectory : Location
  deriving DecidableEq

namespace FileSystem

/-- What stands at a location; the root is always there. -/
def node? (fs : FileSystem) (l : Location) : Option FileNode :=
  if l = [] then some .directory else fs.nodes.lookup l

/-- The file system with a node put at a location. -/
def put (fs : FileSystem) (l : Location) (n : FileNode) : FileSystem :=
  { fs with
    nodes :=
      if (fs.nodes.lookup l).isSome then fs.nodes.map fun e => if e.1 = l then (l, n) else e
      else fs.nodes ++ [(l, n)] }

def maxNameLength : Nat := 255

def maxPathLength : Nat := 4095

def enter (fs : FileSystem) (l : Location) : Except FileError Location :=
  match fs.node? l with
  | none => .error .notFound
  | some (.file _) => .error .notADirectory
  | some .directory => .ok l

def stepInto (l : Location) (name : Path.Segment) : Except FileError Location :=
  if name = Path.here then .ok l
  else if name = Path.up then .ok l.dropLast
  else if maxNameLength < name.length then .error .nameTooLong
  else .ok (l ++ [name])

/-- Where names lead; each is looked up in a directory that has to be there. -/
def follow (fs : FileSystem) (l : Location) : List Path.Segment → Except FileError Location
  | [] => .ok l
  | name :: rest => do
    -- also `.` and `..` need a directory to stand in
    let here ← fs.enter l
    let next ← stepInto here name
    fs.follow next rest

/-- A path taken apart: where it starts, the names before the last, the last one, and whether a slash
follows it. -/
structure Route where
  start : Location
  before : List Path.Segment
  last : Path.Segment
  asDirectory : Bool

/-- The route of a path.  The root is the dot in itself. -/
def route (fs : FileSystem) (p : Path) : Except FileError Route :=
  if p.bytes.contains 0 then .error .invalidPath
  else if maxPathLength < p.bytes.length then .error .nameTooLong
  else if p.isEmpty then .error .notFound
  else
    let start := if p.isAbsolute then [] else fs.workingDirectory
    match p.names.reverse with
    | [] => .ok ⟨start, [], Path.here, true⟩
    | last :: before => .ok ⟨start, before.reverse, last, p.bytes.getLast? == some Path.slash⟩

/-- Where a path leads, whether something stands there or not. -/
def locate (fs : FileSystem) (p : Path) : Except FileError Location := do
  let r ← fs.route p
  let l ← fs.follow r.start (r.before ++ [r.last])
  if r.asDirectory then fs.enter l else return l

def get (fs : FileSystem) (p : Path) : Except FileError FileNode := do
  let l ← fs.locate p
  match fs.node? l with
  | some n => return n
  | none => throw .notFound

def pathExists (fs : FileSystem) (p : Path) : Bool :=
  (fs.get p).isOk

def isDirectory (fs : FileSystem) (p : Path) : Bool :=
  match fs.get p with
  | .ok .directory => true
  | _ => false

/-- The content of the file that a path leads to. -/
def read (fs : FileSystem) (p : Path) : Except FileError Bytes := do
  match ← fs.get p with
  | .file content => return content
  | .directory => throw .isADirectory

/-- The text in the file that a path leads to. -/
def readText (fs : FileSystem) (p : Path) : Except FileError String := do
  match Utf8.decode? (← fs.read p) with
  | some s => return s
  | none => throw .notText

/-- Where a path leads whose last name may be new; the directory above it has to be there, and the last
name must not be a dot or two. -/
def target (fs : FileSystem) (p : Path) (ifDots : FileError) : Except FileError (Location × Route) := do
  let r ← fs.route p
  let above ← fs.follow r.start r.before
  let above ← fs.enter above
  if r.last = Path.here ∨ r.last = Path.up then throw ifDots
  return (← stepInto above r.last, r)

/-- The file system with a file of the given content where a path leads. -/
def write (fs : FileSystem) (p : Path) (content : Bytes) : Except FileError FileSystem := do
  let (l, r) ← fs.target p .isADirectory
  if r.asDirectory ∨ fs.node? l = some .directory then throw .isADirectory
  return fs.put l (.file content)

/-- Opens a file for writing, which makes it or takes everything out of it; the answer is where it stands. -/
def create (fs : FileSystem) (p : Path) : Except FileError (Location × FileSystem) := do
  let (l, _) ← fs.target p .isADirectory
  return (l, ← fs.write p [])

/-- The file system with more bytes at the end of a file. -/
def append (fs : FileSystem) (l : Location) (more : Bytes) : FileSystem :=
  match fs.node? l with
  | some (.file content) => fs.put l (.file (content ++ more))
  | some .directory => fs
  | none => fs

/-- The file system with a new directory where a path leads. -/
def createDirectory (fs : FileSystem) (p : Path) : Except FileError FileSystem := do
  let (l, _) ← fs.target p .alreadyExists
  if (fs.node? l).isSome then throw .alreadyExists
  return fs.put l .directory

/-- Makes the first of the paths a directory, and before it those of the others, which lie above it, that
are missing.  Directories that were made stay also if a later one cannot be. -/
def createChain (fs : FileSystem) : List Path → Except FileError Unit × FileSystem
  | [] => (.error .notFound, fs)
  | p :: above =>
    if p.isEmpty then (.ok (), fs)
    else
      match fs.createDirectory p with
      | .ok made => (.ok (), made)
      -- the directory above is missing: make it, then try once more
      | .error .notFound =>
        match fs.createChain above with
        | (.error e, fs) => (.error e, fs)
        | (.ok (), fs) =>
          match fs.createDirectory p with
          | .ok made => (.ok (), made)
          | .error e => (if fs.isDirectory p then .ok () else .error e, fs)
      | .error e => (if fs.isDirectory p then .ok () else .error e, fs)

/-- Makes a path a directory, with the missing directories above it. -/
def createDirectories (fs : FileSystem) (p : Path) : Except FileError Unit × FileSystem :=
  fs.createChain (p :: p.parents)

def createParents (fs : FileSystem) (p : Path) : Except FileError Unit × FileSystem :=
  match p.parent? with
  | some dir => if dir.isEmpty then (.ok (), fs) else fs.createDirectories dir
  | none => (.ok (), fs)

/-- Writes a file after making the missing directories above it. -/
def writeWithParents (fs : FileSystem) (p : Path) (content : Bytes) :
    Except FileError Unit × FileSystem :=
  match fs.createParents p with
  | (.error e, fs) => (.error e, fs)
  | (.ok (), fs) =>
    match fs.write p content with
    | .ok written => (.ok (), written)
    | .error e => (.error e, fs)

end FileSystem
end TableForest
