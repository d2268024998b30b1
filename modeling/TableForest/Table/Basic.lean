import TableForest.Moment.Basic
import TableForest.Table.Error
import TableForest.Table.LinkPolicy

/-!
# Tables

An ordered list of columns that share one number of rows.  `Table.Shape` is what every table has that was
built with the operations of the library: each column has a name and a cell for each row, every cell is
of the kind and the subtype of its column, and without columns there are no rows.
-/

namespace TableForest

/-- What made a table: a command, what its parameters were bound to, and when. -/
structure Creation where
  command : String
  parameters : Dict String
  created : Moment
  deriving DecidableEq

/-- Columns of equal length under a name. -/
structure Table where
  name : String
  columns : List Column
  rows : Nat
  workingDir : Option Path
  creation : Option Creation
  linkPolicy : LinkPolicy
  deriving DecidableEq

namespace Column

/-- The column has a name, a cell for each of `rows` rows, and only cells of its kind and subtype. -/
structure Fits (rows : Nat) (c : Column) : Prop where
  named : c.info.name ≠ ""
  length : c.cells.length = rows
  kinds : ∀ cell ∈ c.cells, cell.kind = c.info.kind
  subtypes : ∀ cell ∈ c.cells, cell.subtype = c.info.subtype

end Column

namespace Table

/-- Every column fits the number of rows, and there are no rows without columns. -/
structure Shape (t : Table) : Prop where
  fits : ∀ c ∈ t.columns, c.Fits t.rows
  rowless : t.columns = [] → t.rows = 0

def empty (name : String) : Table :=
  ⟨name, [], 0, none, none, .standard⟩

instance : Inhabited Table := ⟨empty ""⟩

def infos (t : Table) : List ColumnInfo :=
  t.columns.map Column.info

def pathContext (t : Table) : PathContext :=
  ⟨t.workingDir⟩

def column (t : Table) (index : Nat) : Except TableError Column :=
  match t.columns[index]? with
  | some c => .ok c
  | none => .error (.columnIndex index t.columns.length)

def checkRow (t : Table) (index : Nat) : Except TableError Unit :=
  if index < t.rows then .ok () else .error (.rowIndex index t.rows)

def place (t : Table) (column row : Nat) : Except TableError (Column × Cell) := do
  let c ← t.column column
  t.checkRow row
  match c.cells[row]? with
  | some cell => return (c, cell)
  | none => throw (.rowIndex row c.cells.length)

def cell (t : Table) (column row : Nat) : Except TableError Cell :=
  (t.place column row).map Prod.snd

def columnIndex? (t : Table) (name : String) : Option Nat :=
  t.columns.findIdx? (·.info.name = name)

/-- The index of the first column of a name, which has to be there. -/
def requireColumn (t : Table) (name : String) : Except TableError Nat :=
  match t.columnIndex? name with
  | some index => .ok index
  | none => .error (.unknownColumn name)

/-- A path resolved in the table's working directory. -/
def resolve (t : Table) (p : Path) : Path :=
  t.pathContext.resolve p

end Table
end TableForest
