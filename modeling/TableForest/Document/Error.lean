import TableForest.Csv.Error
import TableForest.Table.Error

/-!
# Failures of stored tables

What goes wrong while tables are read from a file or written to one.
-/

namespace TableForest

/-- A failure to read or write tables. -/
inductive StorageError where
  | files (cause : FileError)
  | json
  | csv (cause : Csv.CsvError)
  | version (found supported : Nat)
  | table (name : String) (cause : TableError)
  | cell (name column : String) (row : Nat) (cause : CellError)
  | backend (name text : String)
  deriving DecidableEq

/-- The wording of a failure; what the file system or the reader of JSON says about it is left out. -/
def StorageError.message : StorageError → String
  | files _ => "I/O error"
  | json => "JSON error"
  | csv cause => "CSV error: " ++ cause.message
  | version found supported =>
    s!"unsupported document version {found} (this build reads up to {supported})"
  | table name cause => s!"table `{name}`: {cause.message}"
  | cell name column row cause =>
    s!"table `{name}`, column `{column}`, row {row}: {cause.message}"
  | backend name text => s!"{name}: {text}"

end TableForest
