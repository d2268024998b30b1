import TableForest.Document.Error

/-!
# Failures of commands

What a command reports when it fails.  The wording names what was being done and then the causes, the
nearest last, also where a cause has told the next one already.
-/

namespace TableForest

def TableError.causes (e : TableError) : List String :=
  match e with
  | .conversion _ _ cause => [e.message, cause.message]
  | _ => [e.message]

def StorageError.causes (e : StorageError) : List String :=
  match e with
  | .csv cause => [e.message, cause.message]
  | .table _ cause => e.message :: cause.causes
  | .cell _ _ _ cause => [e.message, cause.message]
  | _ => [e.message]

/-- A failure of a command. -/
inductive CommandError where
  | load (document : Path) (cause : StorageError)
  | save (document : Path) (cause : StorageError)
  | read (csv : Path) (cause : StorageError)
  | write (csv : Path) (cause : StorageError)
  | noTable (path : String)
  /-- The table at a path of names has no columns to write. -/
  | noColumns (path : String)
  | badDelimiter
  | conversion (column : String) (kind : Kind) (cause : TableError)
  | table (cause : TableError)
  | cell (cause : CellError)
  deriving DecidableEq

namespace CommandError

def causes : CommandError → List String
  | load document cause => s!"failed to load {document.text}" :: cause.causes
  | save document cause => s!"failed to save {document.text}" :: cause.causes
  | read csv cause => s!"failed to read {csv.text}" :: cause.causes
  | write csv cause => s!"failed to write {csv.text}" :: cause.causes
  | noTable path => [s!"no table at path `{path}`"]
  | noColumns path => [s!"table `{path}` has no columns"]
  | badDelimiter => ["delimiter must be a single ASCII character"]
  | conversion column kind cause =>
    s!"cannot convert column `{column}` to {kind.name}" :: cause.causes
  | table cause => cause.causes
  | cell cause => [cause.message]

def message (e : CommandError) : String :=
  ": ".intercalate e.causes

end CommandError
end TableForest
