import TableForest.Text.Utf8

/-!
# Paths

A path is a row of bytes in which slashes separate names; it is absolute if it starts with one.  It is kept
as it was written, and it need not be text: what is shown of it then is another path's text.  `Path.join`
puts one path after another, and an absolute one takes the place of what stood before it.  `Path.parents`
are the paths above a path, and `Path.stem?` is the name at its end without what follows the last dot.
-/

namespace TableForest

/-- A path as it is written. -/
structure Path where
  bytes : Bytes
  deriving DecidableEq, Repr

namespace Path

instance : Inhabited Path := ⟨⟨[]⟩⟩

/-- The path that a text spells. -/
def ofText (s : String) : Path :=
  ⟨Utf8.encode s⟩

/-- The text that a path is, if it is one. -/
def text? (p : Path) : Option String :=
  Utf8.decode? p.bytes

/-- The text that is shown for a path.  It leads elsewhere if the path is no text. -/
def text (p : Path) : String :=
  Utf8.lossy p.bytes

def slash : UInt8 := 0x2F

def dot : UInt8 := 0x2E

def isEmpty (p : Path) : Bool :=
  p.bytes.isEmpty

def isAbsolute (p : Path) : Bool :=
  p.bytes.head? == some slash

def join (base p : Path) : Path :=
  if p.isAbsolute || base.isEmpty then p
  else if base.bytes.getLast? == some slash then ⟨base.bytes ++ p.bytes⟩
  else ⟨base.bytes ++ slash :: p.bytes⟩

/-- What stands between two slashes. -/
abbrev Segment := Bytes

/-- A dot is a step to where one is. -/
def here : Segment := [dot]

/-- Two dots are a step up. -/
def up : Segment := [dot, dot]

/-- Nothing, or a single dot: a segment that names no step. -/
def isIdle (s : Segment) : Bool :=
  s == [] || s == here

/-- The segments of a path that are not empty, in their order. -/
def names (p : Path) : List Segment :=
  (p.bytes.splitOn slash).filter (· ≠ [])

/-- The start of a path, which is no name: the root, or a dot of its own. -/
def start : Bytes → Bytes
  | [0x2E] => [dot]
  | 0x2E :: 0x2F :: _ => [dot]
  | 0x2F :: _ => [slash]
  | _ => []

/-- The segments after the start of a path, last first. -/
def segmentsReversed (p : Path) : List Segment :=
  ((p.bytes.drop (start p.bytes).length).splitOn slash).reverse

/-- The path that starts as `p` and goes on with segments, given last first. -/
def withSegments (p : Path) (reversed : List Segment) : Path :=
  ⟨start p.bytes ++ [slash].intercalate reversed.reverse⟩

/-- What remains of reversed segments each time that the last name is taken away. -/
def remainders : List Segment → List (List Segment)
  | [] => []
  | s :: rest => if isIdle s then remainders rest else rest.dropWhile isIdle :: remainders rest

/-- The paths above a path, the nearest first.  The root has none; above a relative path is the empty
one. -/
def parents (p : Path) : List Path :=
  (remainders p.segmentsReversed).map p.withSegments
    ++ if start p.bytes = here then [⟨[]⟩] else []

def parent? (p : Path) : Option Path :=
  p.parents.head?

/-- The name at the end of a path, if its last step is a name. -/
def fileName? (p : Path) : Option Segment :=
  match p.segmentsReversed.dropWhile isIdle with
  | [] => none
  | name :: _ => if name = up then none else some name

/-- The name at the end of a path without its last dot and what follows; a dot in front is kept. -/
def stem? (p : Path) : Option Segment :=
  p.fileName?.map fun name =>
    match (name.reverse.dropWhile (· != dot)).drop 1 with
    | [] => name
    | stem => stem.reverse

end Path

/-- The directory that relative paths of a table start from. -/
structure PathContext where
  workingDir : Option Path
  deriving DecidableEq, Repr

/-- A relative path after the working directory, if there is one; every other path stays. -/
def PathContext.resolve (context : PathContext) (p : Path) : Path :=
  match context.workingDir with
  | some dir => if p.isAbsolute then p else dir.join p
  | none => p

end TableForest
