import TableForest.Steps
import TableForest.Table.Operation

/-!
# Operations step by step

A table is kept as two lists side by side, the descriptions of its columns and their cells, with the number
of rows beside them.  An operation goes through both, one place after the other, and it may be stopped on
its way: by a failure that it reports, or by a panic where it reaches past the end of a list or finds an
assertion broken.  What has been changed until then stays changed.

`Table.Operation` says what comes of an operation; here is the order in which it checks and changes things.
-/

namespace TableForest

/-- A table as it is kept: each column's description and its cells stand at the same index of two lists. -/
structure Parts where
  name : String
  infos : List ColumnInfo
  data : List (List Cell)
  rows : Nat
  workingDir : Option Path
  creation : Option Creation
  linkPolicy : LinkPolicy
  deriving DecidableEq

def Table.parts (t : Table) : Parts :=
  ⟨t.name, t.infos, t.columns.map Column.cells, t.rows, t.workingDir, t.creation, t.linkPolicy⟩

/-- What a table says beside its columns. -/
def Parts.frame (p : Parts) : Table :=
  ⟨p.name, [], p.rows, p.workingDir, p.creation, p.linkPolicy⟩

namespace Steps

variable {ε : Type}

/-! ## Single steps -/

def readInfo (index : Nat) : Steps Parts ε ColumnInfo := do
  seek (← get).infos[index]?

def readCells (index : Nat) : Steps Parts ε (List Cell) := do
  seek (← get).data[index]?

def readCell (column row : Nat) : Steps Parts ε Cell := do
  seek (← readCells column)[row]?

def changeInfo (index : Nat) (f : ColumnInfo → ColumnInfo) : Steps Parts ε Unit := do
  let info ← readInfo index
  modify fun p => { p with infos := p.infos.set index (f info) }

/-- Changes the cells of a column; a change that has no result is a panic. -/
def changeCells (index : Nat) (f : List Cell → Option (List Cell)) : Steps Parts ε Unit := do
  let cells ← seek (f (← readCells index))
  modify fun p => { p with data := p.data.set index cells }

def putCell (column row : Nat) (c : Cell) : Steps Parts ε Unit :=
  changeCells column fun cells => if row < cells.length then some (cells.set row c) else none

/-! ## Checks and assertions -/

def checkColumn (index : Nat) : Steps Parts TableError Unit := do
  let p ← get
  if index < p.infos.length then pure () else fail (.columnIndex index p.infos.length)

def checkRow (index : Nat) : Steps Parts TableError Unit := do
  let p ← get
  if index < p.rows then pure () else fail (.rowIndex index p.rows)

def checkPlace (column row : Nat) : Steps Parts TableError Unit := do
  checkColumn column
  checkRow row

def checkColumns : Steps Parts TableError Unit := do
  let p ← get
  if p.infos.isEmpty then fail (.noColumns p.name) else pure ()

/-- Both lists have a member for each column, each column has a cell for each row, and without columns there
are no rows. -/
def assertShape : Steps Parts ε Unit := do
  let p ← get
  assert (p.infos.length = p.data.length)
  assert (p.data.all fun cells => cells.length = p.rows)
  assert (!p.infos.isEmpty || p.rows = 0)

/-! ## Columns -/

def pushColumn (info : ColumnInfo) (cells : List Cell) : Steps Parts ε Nat := do
  modify fun p => { p with infos := p.infos ++ [info] }
  modify fun p => { p with data := p.data ++ [cells] }
  assertShape
  return (← get).infos.length - 1

def addColumn (info : ColumnInfo) : Steps Parts TableError Nat := do
  check (Table.checkName info.name)
  pushColumn info (List.replicate (← get).rows info.blank)

def addColumnWithCells (info : ColumnInfo) (cells : List Cell) : Steps Parts TableError Nat := do
  check (Table.checkName info.name)
  let p ← get
  if !p.infos.isEmpty && cells.length ≠ p.rows then
    fail (.cellCount p.rows cells.length)
  else
    check (Table.checkCells info 0 cells)
    if p.infos.isEmpty then modify fun p => { p with rows := cells.length }
    pushColumn info cells

/-- Takes the cells out first, then the description. -/
def removeColumn (index : Nat) : Steps Parts TableError ColumnInfo := do
  checkColumn index
  let _ ← readCells index
  modify fun p => { p with data := p.data.eraseIdx index }
  let info ← readInfo index
  modify fun p => { p with infos := p.infos.eraseIdx index }
  if (← get).infos.isEmpty then modify fun p => { p with rows := 0 }
  return info

def removeColumns (indices : List Nat) : Steps Parts TableError (List ColumnInfo) := do
  indices.forM checkColumn
  (Table.descending indices).mapM removeColumn

def renameColumn (index : Nat) (name : String) : Steps Parts TableError Unit := do
  checkColumn index
  check (Table.checkName name)
  changeInfo index ({ · with name := name })

/-- Goes through the cells one by one; the description follows. -/
def setColumnSubtype (index : Nat) (subtype : Tag) : Steps Parts TableError Unit := do
  checkColumn index
  let cells ← readCells index
  (List.range cells.length).forM fun row => do
    let c ← readCell index row
    putCell index row { c with subtype := subtype }
  changeInfo index ({ · with subtype := subtype })

def setLinkDefaults (index : Nat) (link : LinkDefaults) : Steps Parts TableError Unit := do
  checkColumn index
  changeInfo index ({ · with link := link })

def setColumnExtra (index : Nat) (key value : String) : Steps Parts TableError Unit := do
  checkColumn index
  changeInfo index fun info => { info with extra := info.extra.insert key value }

/-- The converted cells are made aside. -/
def convertColumn (index : Nat) (kind : Kind) (subtype : Tag) : Steps Parts TableError Unit := do
  checkColumn index
  let info ← readInfo index
  let converted ← check (Table.convertCells info.name kind subtype 0 (← readCells index))
  changeInfo index ({ · with kind := kind })
  changeInfo index ({ · with subtype := subtype })
  changeCells index fun _ => some converted

/-! ## Rows -/

/-- One row more, whose cells are there already; the answer is its index. -/
def countRow : Steps Parts ε Nat := do
  modify fun p => { p with rows := p.rows + 1 }
  assertShape
  return (← get).rows - 1

def addRow : Steps Parts TableError Nat := do
  checkColumns
  (List.range (← get).data.length).forM fun index => do
    let info ← readInfo index
    changeCells index fun cells => some (cells ++ [info.blank])
  countRow

/-- All cells are checked before the first of them is added. -/
def addRowWithCells (cells : List Cell) : Steps Parts TableError Nat := do
  checkColumns
  let p ← get
  if cells.length ≠ p.infos.length then
    fail (.cellCount p.infos.length cells.length)
  else
    (p.infos.zip cells).forM fun (info, cell) => check (Table.checkCell info (some p.rows) cell)
    (List.range p.data.length).forM fun index => do
      let cell ← seek cells[index]?
      changeCells index fun column => some (column ++ [cell])
    countRow

def removeRow (index : Nat) : Steps Parts TableError Unit := do
  checkRow index
  (List.range (← get).data.length).forM fun column =>
    changeCells column fun cells => if index < cells.length then some (cells.eraseIdx index) else none
  modify fun p => { p with rows := p.rows - 1 }
  assertShape

def removeRows (indices : List Nat) : Steps Parts TableError Unit := do
  indices.forM checkRow
  (Table.descending indices).forM removeRow

/-! ## Cells -/

def setCellValue (column row : Nat) (v : Value) : Steps Parts TableError Unit := do
  checkPlace column row
  let info ← readInfo column
  if v.kind ≠ info.kind then
    fail (.kindMismatch info.name (some row) info.kind v.kind)
  else
    let c ← check (Table.ofCell ((← readCell column row).setValue v))
    putCell column row c

def setCellText (column row : Nat) (s : String) : Steps Parts TableError Unit := do
  checkPlace column row
  let c ← check (Table.ofCell ((← readCell column row).setText s))
  putCell column row c

/-- What a change does to a copy of a cell: its answer, and the copy as it leaves it, also if it fails. -/
abbrev Work (ε : Type) := Cell → Except ε Unit × Cell

/-- Lets a change work on a copy, which has to fit the column afterwards. -/
def edited (info : ColumnInfo) (row : Nat) (wrap : TableError → ε) (work : Work ε) (c : Cell) :
    Steps Parts ε Cell := do
  let (answer, copy) := work c
  check answer
  check ((Table.checkCell info (some row) copy).mapError wrap)
  return copy

def updateCell (column row : Nat) (wrap : TableError → ε) (work : Work ε) : Steps Parts ε Unit := do
  wrapping wrap (checkPlace column row)
  let c ← edited (← readInfo column) row wrap work (← readCell column row)
  putCell column row c

/-! ## Links -/

def replaceCell (column row : Nat) (c : Cell) : Steps Parts ε Unit := do
  let info ← readInfo column
  assert (c.isCompatible info.kind info.subtype)
  putCell column row c

def setCounter (index : Nat) (counter : UInt32) : Steps Parts ε Unit :=
  changeInfo index fun info => { info with link := { info.link with counter := counter } }

def nextLink (pathExists : Path → Bool) (column row : Nat) : Steps Parts TableError (Path × UInt32) := do
  checkPlace column row
  let info ← readInfo column
  check ((← get).frame.nextLink pathExists info)

def makeDefaultLink (pathExists : Path → Bool) (column row : Nat) : Steps Parts TableError Path := do
  let (link, counter) ← nextLink pathExists column row
  replaceCell column row (Table.linkCell (← readInfo column) link)
  setCounter column counter
  return link

/-- The new link stands in the copy only, until the change has succeeded. -/
def updateLinkedCell (pathExists : Path → Bool) (column row : Nat) (wrap : TableError → ε)
    (work : Work ε) : Steps Parts ε Unit := do
  wrapping wrap (checkPlace column row)
  let info ← readInfo column
  if info.kind ≠ .fileLink ∨ (← readCell column row).link?.isSome then
    updateCell column row wrap work
  else
    let (link, counter) ← wrapping wrap (nextLink pathExists column row)
    let c ← edited info row wrap work (Table.linkCell info link)
    replaceCell column row c
    setCounter column counter

end Steps

namespace TableOperation

/-- A change as work on a copy; `spoil` is what is made of the copy if it fails. -/
def work {ε σ : Type} (spoil : Cell → Cell) (edit : CellEdit ε σ) (s : σ) : Steps.Work ε :=
  fun c =>
    match (edit c s).1 with
    | .ok copy => (.ok (), copy)
    | .error e => (.error e, spoil c)

/-- An operation step by step. -/
def steps (spoil : Cell → Cell) : TableOperation → Steps Parts Unit Unit
  | addColumn info => (Steps.addColumn info).outcome
  | addColumnWithCells info cells => (Steps.addColumnWithCells info cells).outcome
  | removeColumn index => (Steps.removeColumn index).outcome
  | removeColumns indices => (Steps.removeColumns indices).outcome
  | renameColumn index name => (Steps.renameColumn index name).outcome
  | setColumnSubtype index subtype => (Steps.setColumnSubtype index subtype).outcome
  | setLinkDefaults index link => (Steps.setLinkDefaults index link).outcome
  | setColumnExtra index key value => (Steps.setColumnExtra index key value).outcome
  | convertColumn index kind subtype => (Steps.convertColumn index kind subtype).outcome
  | addRow => Steps.addRow.outcome
  | addRowWithCells cells => (Steps.addRowWithCells cells).outcome
  | removeRow index => (Steps.removeRow index).outcome
  | removeRows indices => (Steps.removeRows indices).outcome
  | setCellValue column row v => (Steps.setCellValue column row v).outcome
  | setCellText column row s => (Steps.setCellText column row s).outcome
  | makeDefaultLink pathExists column row => (Steps.makeDefaultLink pathExists column row).outcome
  | updateCell column row wrap edit s =>
    (Steps.updateCell column row wrap (work spoil edit s)).outcome
  | updateLinkedCell pathExists column row wrap edit s =>
    (Steps.updateLinkedCell pathExists column row wrap (work spoil edit s)).outcome
  | setName name => modify fun p => { p with name := name }
  | setWorkingDir dir => modify fun p => { p with workingDir := dir }
  | setCreation creation => modify fun p => { p with creation := creation }
  | setLinkPolicy policy => modify fun p => { p with linkPolicy := policy }

end TableOperation

/-- What is kept after a history of operations, each of which goes on with what the one before it has left,
also by a failure.  A panic ends the history, and there is nothing any more. -/
def Parts.run? (p : Parts) (spoil : Cell → Cell) : List TableOperation → Option Parts
  | [] => some p
  | op :: rest =>
    match (op.steps spoil).execute p with
    | (.error .panicked, _) => none
    | (_, left) => left.run? spoil rest

end TableForest
