import TableForest.Document.Error
import TableForest.Table.Basic

/-!
# Tables as CSV

A record for the names of the columns and one for each row, of the texts of the cells.  A record of one
empty field, or of none, is written as a pair of quotes, because a blank line would be skipped.
-/

namespace TableForest.Csv

/-- Which fields are quoted. -/
inductive QuoteStyle where
  | necessary
  | always
  | never
  | nonNumeric
  deriving DecidableEq, Repr

/-- How a file is written. -/
structure WriteOptions where
  delimiter : UInt8
  crlf : Bool
  quoteStyle : QuoteStyle
  headers : Bool
  deriving DecidableEq, Repr

/-- Commas, line feeds, quotes where they are needed, and a header record. -/
def WriteOptions.standard : WriteOptions := ⟨0x2C, false, .necessary, true⟩

/-- A byte that cannot stand in a field without quotes. -/
def isSpecial (delimiter b : UInt8) : Bool :=
  b = delimiter || b = quote || isTerminator b

def needsQuotes (options : WriteOptions) (field : String) : Bool :=
  match options.quoteStyle with
  | .always => true
  | .never => false
  | .nonNumeric => (FloatLiteral.read? field).isNone
  | .necessary => (Utf8.encode field).any (isSpecial options.delimiter)

def quotedByte (b : UInt8) : Bytes :=
  if b = quote then [quote, quote] else [b]

def fieldBytes (options : WriteOptions) (field : String) : Bytes :=
  if needsQuotes options field then quote :: (Utf8.encode field).flatMap quotedByte ++ [quote]
  else Utf8.encode field

def terminator (options : WriteOptions) : Bytes :=
  if options.crlf then [carriageReturn, lineFeed] else [lineFeed]

/-- What has been written, and why nothing follows if that is not all. -/
abbrev Encoded := Bytes × Option CsvError

/-- The fields of a record; `separator` stands before the first of them.  A field that cannot be had is the
end. -/
def encodeFields (options : WriteOptions) (separator : Bytes) : List (Except CsvError String) → Encoded
  | [] => ([], none)
  | .error e :: _ => ([], some e)
  | .ok field :: rest =>
    let (more, stop) := encodeFields options [options.delimiter] rest
    (separator ++ fieldBytes options field ++ more, stop)

/-- A record from its fields. -/
def closeRecord (options : WriteOptions) (body : Bytes) : Bytes :=
  (if body.isEmpty then [quote, quote] else body) ++ terminator options

/-- A record; the first one decides how many fields all of them have. -/
def encodeRecord (options : WriteOptions) (width : Option Nat) (fields : List (Except CsvError String)) :
    Encoded :=
  match encodeFields options [] fields with
  | (body, some e) => (body, some e)
  | (body, none) =>
    -- how many fields there are is known only when they are written
    if fields.length ≠ width.getD fields.length then
      (body, some (.unequalRecord (width.getD fields.length) fields.length))
    else (closeRecord options body, none)

def encodeRecords (options : WriteOptions) (width : Option Nat) :
    List (List (Except CsvError String)) → Encoded
  | [] => ([], none)
  | r :: rest =>
    match encodeRecord options width r with
    | (bs, some e) => (bs, some e)
    | (bs, none) =>
      let (more, stop) := encodeRecords options (some (width.getD r.length)) rest
      (bs ++ more, stop)

def cellText (row : Nat) (c : Column) : Except CsvError String :=
  match c.cells[row]? with
  | some cell => .ok cell.text
  | none => .error (.noCell row c.cells.length)

def tableFields (options : WriteOptions) (t : Table) : List (List (Except CsvError String)) :=
  (if options.headers then [t.infos.map fun info => .ok info.name] else [])
    ++ (List.range t.rows).map fun row => t.columns.map (cellText row)

def encode (options : WriteOptions) (t : Table) : Encoded :=
  encodeRecords options none (tableFields options t)

def writeTable (options : WriteOptions) (t : Table) : Bytes :=
  (encode options t).1

/-- Writes a table to a path.  The file is empty as soon as it is open, and keeps what gets into it. -/
def writeTableTo (fs : FileSystem) (options : WriteOptions) (t : Table) (p : Path) :
    Except StorageError Unit × FileSystem :=
  match fs.create p with
  | .error e => (.error (.files e), fs)
  | .ok (l, fs) =>
    match encode options t with
    | (bs, none) => (.ok (), fs.append l bs)
    | (bs, some e) => (.error (.csv e), fs.append l bs)

end TableForest.Csv
