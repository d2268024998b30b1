import TableForest.Adapter.Registry

/-!
# Built-in adapters

The adapters between each kind of cell and the plain types that it can stand for.  Integers are read into
narrower types only if they fit, and into floating-point numbers with rounding.  `file-path` reads where a
link leads and `text-file` what stands there.
-/

namespace TableForest

namespace Builtin

def logical (c : Cell) : Except BindingError Bool :=
  match c.value with
  | .logical b => .ok b
  | v => .error (.cellKind "logical" .logical v.kind)

def integer (c : Cell) : Except BindingError Int64 :=
  match c.value with
  | .integer n => .ok n
  | v => .error (.cellKind "integer-i64" .integer v.kind)

def numeric (c : Cell) : Except BindingError Binary64 :=
  match c.value with
  | .numeric x => .ok x
  | v => .error (.cellKind "numeric-f64" .numeric v.kind)

def link (adapter : String) (c : Cell) : Except BindingError Path :=
  match c.link? with
  | some s => .ok (.ofText s)
  | none => .error (.emptyLink adapter)

/-- An integer as one of a type of fewer bits. -/
def narrow {α : Type} (bits : Nat) (ofInt : Int → α) (target : ItemType) (n : Int64) :
    Except BindingError α :=
  if -(Nat.pow 2 (bits - 1) : Nat) ≤ n.toInt ∧ n.toInt < (Nat.pow 2 (bits - 1) : Nat) then .ok (ofInt n.toInt)
  else .error (.outOfRange n target)

/-- A reader that needs nothing but the cell. -/
def cellReader (name : String) (kind : Kind) (type : ItemType)
    (convert : Cell → Except BindingError type.Carrier) : Reader :=
  ⟨⟨name, kind, .any, type, false⟩, fun c _ _ => convert c⟩

/-- A reader that is not offered for constants. -/
def hidden (r : Reader) : Reader :=
  ⟨{ r.info with isHidden := true }, r.convert⟩

def readTextFile (c : Cell) (context : PathContext) (fs : FileSystem) :
    Except BindingError String := do
  let path := context.resolve (← link "text-file" c)
  match fs.readText path with
  | .error .notFound => throw (.link (.missingFile path))
  | .error e => throw (.files e)
  | .ok s => return s

def readers : List Reader := [
  cellReader "logical" .logical .bool logical,
  hidden (cellReader "logical-int" .logical .i32 fun c =>
    (logical c).map fun b => (if b then 1 else 0 : Int32)),
  cellReader "integer-i8" .integer .i8 fun c => integer c >>= narrow 8 Int8.ofInt .i8,
  cellReader "integer-i16" .integer .i16 fun c => integer c >>= narrow 16 Int16.ofInt .i16,
  cellReader "integer-i32" .integer .i32 fun c => integer c >>= narrow 32 Int32.ofInt .i32,
  cellReader "integer-i64" .integer .i64 integer,
  cellReader "integer-f32" .integer .f32 fun c => (integer c).map fun n => Binary.ofInt n.toInt,
  cellReader "integer-f64" .integer .f64 fun c => (integer c).map fun n => Binary.ofInt n.toInt,
  cellReader "numeric-f64" .numeric .f64 numeric,
  cellReader "numeric-f32" .numeric .f32 fun c => (numeric c).map Binary.convert,
  cellReader "text" .text .string fun c => .ok c.text,
  ⟨⟨"file-path", .fileLink, .any, .path, false⟩, fun c context _ =>
    (link "file-path" c).map context.resolve⟩,
  ⟨⟨"text-file", .fileLink, .ofList [⟨"text/plain"⟩], .string, false⟩, readTextFile⟩]

def cellWriter (name : String) (kind : Kind) (type : ItemType) (value : type.Carrier → Value) :
    Writer :=
  ⟨⟨name, type, kind, kind.defaultTag, none⟩, fun x c _ fs =>
    ((c.setValue (value x)).mapError BindingError.cell, fs)⟩

/-- Writes a text to the file that a cell links. -/
def writeTextFile (s : String) (c : Cell) (context : PathContext) (fs : FileSystem) :
    Except BindingError Cell × FileSystem :=
  match link "text-file" c with
  | .error e => (.error e, fs)
  | .ok target =>
    let path := context.resolve target
    match fs.writeWithParents path (Utf8.encode s) with
    | (.ok (), fs) => (.ok c, fs)
    | (.error _, fs) => (.error (.link (.createFailed path)), fs)

def writers : List Writer := [
  cellWriter "logical" .logical .bool Value.logical,
  cellWriter "integer-i32" .integer .i32 fun n => .integer (Int32.toInt64 n),
  cellWriter "integer-i64" .integer .i64 Value.integer,
  cellWriter "numeric-f64" .numeric .f64 Value.numeric,
  cellWriter "text" .text .string Value.text,
  ⟨⟨"text-file", .string, .fileLink, ⟨"text/plain"⟩, some "txt"⟩, writeTextFile⟩]

end Builtin

def Registry.builtin : Registry :=
  Builtin.writers.foldl registerWriter (Builtin.readers.foldl registerReader .empty)

end TableForest
