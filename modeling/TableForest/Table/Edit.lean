import TableForest.Table.Basic

/-!
# Changing tables

Each operation answers with its result or a failure, and with the table as it is then.  All checks come
before the first change, so a table is as it was before an operation that failed.  An index counts from
zero; batches go from the highest index to the lowest, because removing moves what follows.
-/

namespace TableForest

/-- The answer of an operation on a table, and the table afterwards. -/
abbrev Edited (α : Type) := Except TableError α × Table

namespace Table

/-- Goes on if a check succeeds; otherwise its failure is the answer and the table stays. -/
def requiring {α β : Type} (t : Table) (check : Except TableError β) (next : β → Edited α) :
    Edited α :=
  match check with
  | .ok b => next b
  | .error e => (.error e, t)

/-- A column needs a name. -/
def checkName (name : String) : Except TableError Unit :=
  if name.isEmpty then .error .emptyColumnName else .ok ()

/-- A cell has to be of the kind and the subtype of its column. -/
def checkCell (info : ColumnInfo) (row : Option Nat) (c : Cell) : Except TableError Unit :=
  if c.kind ≠ info.kind then .error (.kindMismatch info.name row info.kind c.kind)
  else if c.subtype ≠ info.subtype then
    .error (.subtypeMismatch info.name row info.subtype c.subtype)
  else .ok ()

/-- All cells of a column have to be of its kind and subtype; `row` is that of the first. -/
def checkCells (info : ColumnInfo) (row : Nat) : List Cell → Except TableError Unit
  | [] => .ok ()
  | c :: rest => do
    checkCell info (some row) c
    checkCells info (row + 1) rest

def modifyColumn (t : Table) (index : Nat) (f : Column → Column) : Table :=
  { t with columns := t.columns.modify index f }

/-- The table with the description of one of its columns changed. -/
def modifyInfo (t : Table) (index : Nat) (f : ColumnInfo → ColumnInfo) : Table :=
  t.modifyColumn index fun c => { c with info := f c.info }

def putCell (t : Table) (column row : Nat) (c : Cell) : Table :=
  t.modifyColumn column fun col => { col with cells := col.cells.set row c }

/-! ## Columns -/

/-- The table with a column at the end, and the index of it. -/
def push (t : Table) (c : Column) : Edited Nat :=
  (.ok t.columns.length, { t with columns := t.columns ++ [c] })

def addColumn (t : Table) (info : ColumnInfo) : Edited Nat :=
  t.requiring (checkName info.name) fun _ => t.push ⟨info, List.replicate t.rows info.blank⟩

/-- Adds a column with its cells, which have to be one for each row; the first column of a table brings
the rows with it. -/
def addColumnWithCells (t : Table) (info : ColumnInfo) (cells : List Cell) : Edited Nat :=
  t.requiring (checkName info.name) fun _ =>
    if !t.columns.isEmpty && cells.length ≠ t.rows then
      (.error (.cellCount t.rows cells.length), t)
    else
      -- the first column decides how many rows there are
      t.requiring (checkCells info 0 cells) fun _ =>
        if t.columns.isEmpty then { t with rows := cells.length }.push ⟨info, cells⟩
        else t.push ⟨info, cells⟩

/-- Removes a column; with the last one go the rows. -/
def removeColumn (t : Table) (index : Nat) : Edited ColumnInfo :=
  t.requiring (t.column index) fun c =>
    let columns := t.columns.eraseIdx index
    (.ok c.info, { t with columns := columns, rows := if columns.isEmpty then 0 else t.rows })

/-- Each index once, from the highest to the lowest. -/
def descending (indices : List Nat) : List Nat :=
  (indices.mergeSort fun a b => decide (b ≤ a)).eraseDups

def removeEachColumn (t : Table) : List Nat → Edited (List ColumnInfo)
  | [] => (.ok [], t)
  | index :: rest =>
    match t.removeColumn index with
    | (.error e, t) => (.error e, t)
    | (.ok info, t) =>
      match t.removeEachColumn rest with
      | (.error e, t) => (.error e, t)
      | (.ok infos, t) => (.ok (info :: infos), t)

/-- Removes columns, which all have to be there; their descriptions come from the highest index down. -/
def removeColumns (t : Table) (indices : List Nat) : Edited (List ColumnInfo) :=
  t.requiring (indices.forM fun index => (t.column index).map fun _ => ()) fun _ =>
    -- from the highest down, so that the indices that are left stay right
    t.removeEachColumn (descending indices)

def renameColumn (t : Table) (index : Nat) (name : String) : Edited Unit :=
  t.requiring (t.column index) fun _ =>
    t.requiring (checkName name) fun _ => (.ok (), t.modifyInfo index ({ · with name := name }))

def setColumnSubtype (t : Table) (index : Nat) (subtype : Tag) : Edited Unit :=
  t.requiring (t.column index) fun _ =>
    (.ok (), t.modifyColumn index fun c =>
      ⟨{ c.info with subtype := subtype }, c.cells.map ({ · with subtype := subtype })⟩)

def setLinkDefaults (t : Table) (index : Nat) (link : LinkDefaults) : Edited Unit :=
  t.requiring (t.column index) fun _ => (.ok (), t.modifyInfo index ({ · with link := link }))

def setColumnExtra (t : Table) (index : Nat) (key value : String) : Edited Unit :=
  t.requiring (t.column index) fun _ =>
    (.ok (), t.modifyInfo index fun info => { info with extra := info.extra.insert key value })

/-- The cells of another kind that the texts of some cells spell; `row` is that of the first. -/
def convertCells (name : String) (kind : Kind) (subtype : Tag) (row : Nat) :
    List Cell → Except TableError (List Cell)
  | [] => .ok []
  | c :: rest =>
    match Cell.parse kind subtype c.text with
    | .error e => .error (.conversion name row e)
    | .ok converted => (convertCells name kind subtype (row + 1) rest).map (converted :: ·)

/-- Gives a column another kind by reading the text of each cell anew.  Nothing changes unless every text
spells a value of the kind. -/
def convertColumn (t : Table) (index : Nat) (kind : Kind) (subtype : Tag) : Edited Unit :=
  t.requiring (t.column index) fun c =>
    t.requiring (convertCells c.info.name kind subtype 0 c.cells) fun cells =>
      (.ok (), t.modifyColumn index fun c =>
        ⟨{ c.info with kind := kind, subtype := subtype }, cells⟩)

/-! ## Rows -/

def checkColumns (t : Table) : Except TableError Unit :=
  if t.columns.isEmpty then .error (.noColumns t.name) else .ok ()

/-- Adds a row of default cells; the answer is its index. -/
def addRow (t : Table) : Edited Nat :=
  t.requiring t.checkColumns fun _ =>
    (.ok t.rows, { t with
      columns := t.columns.map fun c => { c with cells := c.cells ++ [c.info.blank] }
      rows := t.rows + 1 })

/-- Adds a row of cells, one for each column; the answer is its index. -/
def addRowWithCells (t : Table) (cells : List Cell) : Edited Nat :=
  t.requiring t.checkColumns fun _ =>
    if cells.length ≠ t.columns.length then
      (.error (.cellCount t.columns.length cells.length), t)
    else
      t.requiring ((t.columns.zip cells).forM fun (c, cell) => checkCell c.info (some t.rows) cell)
        fun _ =>
          (.ok t.rows, { t with
            columns := t.columns.zipWith (fun c cell => { c with cells := c.cells ++ [cell] }) cells
            rows := t.rows + 1 })

def removeRow (t : Table) (index : Nat) : Edited Unit :=
  t.requiring (t.checkRow index) fun _ =>
    (.ok (), { t with
      columns := t.columns.map fun c => { c with cells := c.cells.eraseIdx index }
      rows := t.rows - 1 })

def removeEachRow (t : Table) : List Nat → Edited Unit
  | [] => (.ok (), t)
  | index :: rest =>
    match t.removeRow index with
    | (.error e, t) => (.error e, t)
    | (.ok (), t) => t.removeEachRow rest

/-- Removes rows, which all have to be there. -/
def removeRows (t : Table) (indices : List Nat) : Edited Unit :=
  t.requiring (indices.forM t.checkRow) fun _ => t.removeEachRow (descending indices)

/-! ## Cells -/

/-- A failure of a cell as one of its table. -/
def ofCell {α : Type} (result : Except CellError α) : Except TableError α :=
  result.mapError TableError.cell

def setCellValue (t : Table) (column row : Nat) (v : Value) : Edited Unit :=
  t.requiring (t.place column row) fun (col, c) =>
    if v.kind ≠ col.info.kind then
      (.error (.kindMismatch col.info.name (some row) col.info.kind v.kind), t)
    else t.requiring (ofCell (c.setValue v)) fun c => (.ok (), t.putCell column row c)

/-- Puts the value into a cell that a text spells under the column's kind. -/
def setCellText (t : Table) (column row : Nat) (s : String) : Edited Unit :=
  t.requiring (t.place column row) fun (_, c) =>
    t.requiring (ofCell (c.setText s)) fun c => (.ok (), t.putCell column row c)

end Table

/-- A change of a cell that may fail, with a state of its own beside it. -/
abbrev CellEdit (ε σ : Type) := Cell → σ → Except ε Cell × σ

namespace Table

variable {ε σ : Type}

/-- Puts an edited cell into its place if it still fits the column. -/
def commitCell (t : Table) (info : ColumnInfo) (column row : Nat) (wrap : TableError → ε)
    (result : Except ε Cell) : Except ε Unit × Table :=
  match result with
  | .error e => (.error e, t)
  | .ok c =>
    match checkCell info (some row) c with
    | .error e => (.error (wrap e), t)
    | .ok () => (.ok (), t.putCell column row c)

/-- Changes a copy of a cell, which takes the place of the cell if the change succeeds and the copy still
fits the column.  The state of the change goes on in either case. -/
def updateCell (t : Table) (column row : Nat) (wrap : TableError → ε) (edit : CellEdit ε σ) (s : σ) :
    Except ε Unit × Table × σ :=
  match t.place column row with
  | .error e => (.error (wrap e), t, s)
  | .ok (col, c) =>
    -- the change may have done things outside of the table, whatever comes of the cell
    let (result, s) := edit c s
    let (answer, t) := t.commitCell col.info column row wrap result
    (answer, t, s)

end Table
end TableForest
