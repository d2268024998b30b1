import TableForest.Table.Link

/-!
# Operations as data

Every operation that the library offers on a table, with its arguments, as one value.  A history of a table
is then a list of operations, and `Table.run` is the table that a history leaves.  Changes of a cell are
arbitrary functions with arbitrary failures, and so are the answers to whether a file exists.
-/

namespace TableForest

/-- An operation on a table with its arguments. -/
inductive TableOperation where
  | addColumn (info : ColumnInfo)
  | addColumnWithCells (info : ColumnInfo) (cells : List Cell)
  | removeColumn (index : Nat)
  | removeColumns (indices : List Nat)
  | renameColumn (index : Nat) (name : String)
  | setColumnSubtype (index : Nat) (subtype : Tag)
  | setLinkDefaults (index : Nat) (link : LinkDefaults)
  | setColumnExtra (index : Nat) (key value : String)
  | convertColumn (index : Nat) (kind : Kind) (subtype : Tag)
  | addRow
  | addRowWithCells (cells : List Cell)
  | removeRow (index : Nat)
  | removeRows (indices : List Nat)
  | setCellValue (column row : Nat) (v : Value)
  | setCellText (column row : Nat) (s : String)
  | makeDefaultLink (pathExists : Path → Bool) (column row : Nat)
  | updateCell {ε σ : Type} (column row : Nat) (wrap : TableError → ε) (edit : CellEdit ε σ) (s : σ)
  | updateLinkedCell {ε σ : Type} (pathExists : Path → Bool) (column row : Nat)
      (wrap : TableError → ε) (edit : CellEdit ε σ) (s : σ)
  | setName (name : String)
  | setWorkingDir (dir : Option Path)
  | setCreation (creation : Option Creation)
  | setLinkPolicy (policy : LinkPolicy)

namespace Table

/-- Whether an operation succeeded, and the table as it left it. -/
def report {ε α : Type} (answer : Except ε α × Table) : Bool × Table :=
  (answer.1.isOk, answer.2)

/-- Performs an operation: whether it succeeds, and the table afterwards. -/
def perform (t : Table) : TableOperation → Bool × Table
  | .addColumn info => report (t.addColumn info)
  | .addColumnWithCells info cells => report (t.addColumnWithCells info cells)
  | .removeColumn index => report (t.removeColumn index)
  | .removeColumns indices => report (t.removeColumns indices)
  | .renameColumn index name => report (t.renameColumn index name)
  | .setColumnSubtype index subtype => report (t.setColumnSubtype index subtype)
  | .setLinkDefaults index link => report (t.setLinkDefaults index link)
  | .setColumnExtra index key value => report (t.setColumnExtra index key value)
  | .convertColumn index kind subtype => report (t.convertColumn index kind subtype)
  | .addRow => report t.addRow
  | .addRowWithCells cells => report (t.addRowWithCells cells)
  | .removeRow index => report (t.removeRow index)
  | .removeRows indices => report (t.removeRows indices)
  | .setCellValue column row v => report (t.setCellValue column row v)
  | .setCellText column row s => report (t.setCellText column row s)
  | .makeDefaultLink pathExists column row => report (t.makeDefaultLink pathExists column row)
  | .updateCell column row wrap edit s =>
    let (answer, t, _) := t.updateCell column row wrap edit s
    report (answer, t)
  | .updateLinkedCell pathExists column row wrap edit s =>
    let (answer, t, _) := t.updateLinkedCell pathExists column row wrap edit s
    report (answer, t)
  | .setName name => (true, { t with name := name })
  | .setWorkingDir dir => (true, { t with workingDir := dir })
  | .setCreation creation => (true, { t with creation := creation })
  | .setLinkPolicy policy => (true, { t with linkPolicy := policy })

/-- The table after a history of operations, of which any may fail. -/
def run (t : Table) (history : List TableOperation) : Table :=
  history.foldl (fun t op => (t.perform op).2) t

end Table
end TableForest
