import TableForest.Table.Column

/-!
# Failures of tables

What goes wrong in a table, in the links of its cells, or in a forest of tables.
-/

namespace TableForest

/-- The handle of a table in a forest. -/
structure TableId where
  index : Nat
  deriving DecidableEq, Repr

def TableId.text (id : TableId) : String :=
  s!"#{id.index}"

/-- A failure to name, find or write a linked file. -/
inductive LinkError where
  | noDefaultPath (column : String)
  | notAFileLink (column : String) (kind : Kind)
  | missingFile (path : Path)
  | createFailed (path : Path)
  | probeExhausted (column : String) (attempts : Nat)
  deriving DecidableEq

def LinkError.message : LinkError → String
  | noDefaultPath column => s!"column `{column}` has no default link path configured"
  | notAFileLink column kind => s!"column `{column}` holds {kind.name} values, not file links"
  | missingFile path => s!"linked file `{path.text}` does not exist"
  | createFailed path => s!"failed to write linked file `{path.text}`"
  | probeExhausted column attempts =>
    s!"no unused link name for column `{column}` after {attempts} attempts"

/-- A failure of a table or of a forest. -/
inductive TableError where
  | columnIndex (index len : Nat)
  | rowIndex (index len : Nat)
  | unknownColumn (name : String)
  | emptyColumnName
  /-- A row was to be added to a table without columns. -/
  | noColumns (table : String)
  | cellCount (expected found : Nat)
  | kindMismatch (column : String) (row : Option Nat) (expected found : Kind)
  | subtypeMismatch (column : String) (row : Option Nat) (expected found : Tag)
  /-- The text of a cell spells no value of the new kind. -/
  | conversion (column : String) (row : Nat) (cause : CellError)
  | unknownTable (id : TableId)
  | hasChildren (name : String) (children : Nat)
  | cell (cause : CellError)
  | link (cause : LinkError)
  deriving DecidableEq

namespace TableError

/-- The row of a failure, if it has one. -/
def rowText : Option Nat → String
  | some row => s!" at row {row}"
  | none => ""

def message : TableError → String
  | columnIndex index len => s!"column index {index} out of bounds (table has {len} columns)"
  | rowIndex index len => s!"row index {index} out of bounds (table has {len} rows)"
  | unknownColumn name => s!"no column named `{name}`"
  | emptyColumnName => "column name cannot be empty"
  | noColumns table => s!"table `{table}` has no columns to add a row to"
  | cellCount expected found => s!"expected {expected} cells, got {found}"
  | kindMismatch column row expected found =>
    s!"column `{column}` holds {expected.name} values, got {found.name}" ++ rowText row
  | subtypeMismatch column row expected found =>
    s!"column `{column}` has subtype `{expected.text}`, got `{found.text}`" ++ rowText row
  | conversion column row cause =>
    s!"cannot convert column `{column}` at row {row}: {cause.message}"
  | unknownTable id => s!"unknown table id {id.text}"
  | hasChildren name children =>
    s!"table `{name}` still has {children} child table(s); detach them first"
  | cell cause => cause.message
  | link cause => cause.message

end TableError
end TableForest
