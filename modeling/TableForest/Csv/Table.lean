import TableForest.Csv.Record
import TableForest.Document.Error
import TableForest.Table.Edit

/-!
# Tables from CSV

A file becomes one table.  All records have to be of one length and of text; the first may hold the names
of the columns.  A column takes the first kind that fits all its fields: integer, numeric, logical, text.
Numbers with superfluous zeros stay text, and so do integers that a floating-point number cannot hold.
-/

namespace TableForest.Csv

/-- How a file is read. -/
structure ReadOptions where
  delimiter : UInt8
  hasHeaders : Bool
  trim : Bool
  infer : Bool
  deriving DecidableEq, Repr

/-- Commas, a header record, blanks kept, and kinds inferred. -/
def ReadOptions.standard : ReadOptions := ⟨0x2C, true, false, true⟩

/-! ## Records as text -/

def isAsciiBlank (b : UInt8) : Bool :=
  b = 0x20 || b = 0x09 || b = 0x0A || b = 0x0C || b = 0x0D

def trimField (bs : Bytes) : Bytes :=
  ((bs.dropWhile isAsciiBlank).reverse.dropWhile isAsciiBlank).reverse

/-- The texts of fields; `field` is the index of the first of them. -/
def decodeFields (start : Position) (field : Nat) : List Bytes → Except CsvError (List String)
  | [] => .ok []
  | bs :: rest =>
    match Utf8.decode? bs with
    | none => .error (.notText start field (Utf8.validLength bs))
    | some s => (decodeFields start (field + 1) rest).map (s :: ·)

def decodeRecord (trim : Bool) (r : RawRecord) : Except CsvError (List String) :=
  if trim then (decodeFields r.start 0 (r.fields.map trimField)).map (·.map Text.trim)
  else decodeFields r.start 0 r.fields

/-- The texts of a header record, which are trimmed only after they have been read. -/
def decodeHeader (trim : Bool) (r : RawRecord) : Except CsvError (List String) :=
  (decodeFields r.start 0 r.fields).map fun names => if trim then names.map Text.trim else names

/-- The texts of records of data that all have to be of one length. -/
def decodeRecords (trim : Bool) (expected : Nat) : List RawRecord → Except CsvError (List (List String))
  | [] => .ok []
  | r :: rest =>
    if r.fields.length ≠ expected then
      .error (.unequalLengths r.start expected r.fields.length)
    else do
      let texts ← decodeRecord trim r
      return texts :: (← decodeRecords trim expected rest)

/-- The names of columns and the rows of a file. -/
structure Sheet where
  names : List String
  rows : List (List String)
  deriving DecidableEq

/-- The name of a column without one; `index` counts from zero. -/
def defaultName (index : Nat) : String :=
  s!"C{index + 1}"

/-- Names of columns; an empty one is replaced. -/
def columnNames (header : List String) : List String :=
  header.zipIdx.map fun (name, index) => if name.isEmpty then defaultName index else name

def Sheet.ofRecords (options : ReadOptions) : List RawRecord → Except CsvError Sheet
  | [] => .ok ⟨[], []⟩
  | first :: rest => do
    let width := first.fields.length
    if options.hasHeaders then
      let header ← decodeHeader options.trim first
      return ⟨columnNames header, ← decodeRecords options.trim width rest⟩
    else
      return ⟨(List.range width).map defaultName, ← decodeRecords options.trim width (first :: rest)⟩

/-! ## Kinds of columns -/

def unsigned (s : String) : List Char :=
  (Decimal.splitSign s.toList).2

def plainInteger? (s : String) : Option Int64 :=
  let ds := unsigned s
  if ds.isEmpty || (1 < ds.length && ds.head? == some '0') || !ds.all Decimal.isDigit then none
  else readInt64? s

/-- The finite number of a numeral with a point or an exponent and without superfluous zeros. -/
def plainNumber? (s : String) : Option Binary64 :=
  let cs := s.toList
  let ds := unsigned s
  if !(cs.contains '.' || cs.contains 'e' || cs.contains 'E') then none
  else if 1 < ds.length && ds.head? == some '0' && ds.take 2 ≠ ['0', '.'] then none
  else (Binary.read? s).filter Binary.isFinite

/-- The greatest integer up to which a floating-point number holds all integers. -/
def maxExactInteger : Int := (Nat.pow 2 53 : Nat)

/-- The number that a field spells; integers have to be held exactly. -/
def number? (s : String) : Option Binary64 :=
  match plainInteger? s with
  | some n =>
    -- a greater integer would change its value on the way
    if -maxExactInteger ≤ n.toInt ∧ n.toInt ≤ maxExactInteger then some (.ofInt n.toInt) else none
  | none => plainNumber? s

/-- The truth value that a word in any case spells. -/
def word? (s : String) : Option Bool :=
  let w := Text.lowerAscii s
  if w = "true" then some true else if w = "false" then some false else none

def inferKind (fields : List String) : Kind :=
  -- an empty field is no number, so its column is text
  if fields.isEmpty || fields.any String.isEmpty then .text
  else if fields.all fun s => (plainInteger? s).isSome then .integer
  else if fields.all fun s => (number? s).isSome then .numeric
  else if fields.all fun s => (word? s).isSome then .logical
  else .text

/-- The value of a field under the kind of its column; a field that does not fit is text. -/
def fieldValue (kind : Kind) (s : String) : Value :=
  match kind with
  | .integer => ((plainInteger? s).map Value.integer).getD (.text s)
  | .numeric => ((number? s).map Value.numeric).getD (.text s)
  | .logical => ((word? s).map Value.logical).getD (.text s)
  | .text => .text s
  | .fileLink => .text s

/-! ## Tables -/

def columnsOf (width : Nat) (rows : List (List String)) : List (List String) :=
  (List.range width).map fun i => rows.map fun row => row.getD i ""

def addFields (options : ReadOptions) (t : Table) (name : String) (fields : List String) :
    Edited Nat :=
  let kind := if options.infer then inferKind fields else .text
  let info := ColumnInfo.ofKind name kind
  t.addColumnWithCells info (fields.map fun s => ⟨fieldValue kind s, info.subtype⟩)

def addColumns (options : ReadOptions) (t : Table) :
    List (String × List String) → Except StorageError Table
  | [] => .ok t
  | (name, fields) :: rest =>
    match addFields options t name fields with
    | (.ok _, t) => addColumns options t rest
    | (.error e, t) => .error (.table t.name e)

def readTable (options : ReadOptions) (name : String) (bs : Bytes) : Except StorageError Table := do
  let sheet ← (Sheet.ofRecords options (records options.delimiter bs)).mapError StorageError.csv
  addColumns options (.empty name) (sheet.names.zip (columnsOf sheet.names.length sheet.rows))

/-- The table of the file at a path, named for the file; its working directory is that of the file. -/
def readTableAt (fs : FileSystem) (options : ReadOptions) (p : Path) : Except StorageError Table := do
  let name := (p.stem?.map Utf8.lossy).getD "table"
  match fs.read p with
  | .error .isADirectory => throw (.csv (.unreadable .isADirectory))
  | .error e => throw (.files e)
  | .ok bs =>
    let t ← readTable options name bs
    match p.parent? with
    | some dir => return if dir.isEmpty then t else { t with workingDir := some dir }
    | none => return t

end TableForest.Csv
