import TableForest.Document.Error
import TableForest.Forest.Basic
import TableForest.Table.Edit

/-!
# Documents

The stored form of a forest: tables with their children inside them, and the cells of a column as texts.
`TreeDocument.ofForest` takes the form of a forest and `TreeDocument.toForest` builds the forest anew.
What is as usual is left out: settings of links that say nothing, and the standard link policy.
-/

namespace TableForest

/-- The stored form of a column. -/
structure ColumnDocument where
  name : String
  kind : Kind
  subtype : Tag
  link : Option LinkDefaults
  extra : Dict String
  cells : List String
  deriving DecidableEq

/-- The stored form of a table and of all below it. -/
structure TableDocument where
  name : String
  workingDir : Option Path
  creation : Option Creation
  linkPolicy : Option LinkPolicy
  columns : List ColumnDocument
  children : List TableDocument

/-- The stored form of a forest. -/
structure TreeDocument where
  version : UInt32
  tables : List TableDocument

/-- The version that is written, and the last that can be read. -/
def documentVersion : UInt32 := 1

/-! ## From a forest -/

def ColumnDocument.ofColumn (c : Column) : ColumnDocument :=
  { name := c.info.name
    kind := c.info.kind
    subtype := c.info.subtype
    link := if c.info.link = .none then none else some c.info.link
    extra := c.info.extra
    cells := c.cells.map Cell.text }

def TableDocument.ofTable (t : Table) : TableDocument :=
  { name := t.name
    workingDir := t.workingDir
    creation := t.creation
    linkPolicy := if t.linkPolicy = .standard then none else some t.linkPolicy
    columns := t.columns.map ColumnDocument.ofColumn
    children := [] }

/-- The stored form of a table and of all below it; no forest is deeper than its arena is long. -/
def TableDocument.ofSubtree (f : Forest) : Nat → TableId → Except StorageError TableDocument
  | 0, id => .error (.table id.text (.unknownTable id))
  | depth + 1, id =>
    match f.node id with
    | .error e => .error (.table id.text e)
    | .ok n => do
      let children ← n.children.mapM (ofSubtree f depth)
      return { ofTable n.table with children := children }

def TreeDocument.ofForest (f : Forest) : Except StorageError TreeDocument := do
  return ⟨documentVersion, ← f.roots.mapM (TableDocument.ofSubtree f f.nodes.length)⟩

/-! ## To a forest -/

/-- The cells that texts spell; `row` is the row of the first. -/
def ColumnDocument.readCells (table : String) (c : ColumnDocument) (row : Nat) :
    List String → Except StorageError (List Cell)
  | [] => .ok []
  | s :: rest =>
    match Cell.parse c.kind c.subtype s with
    | .error e => .error (.cell table c.name row e)
    | .ok cell => (c.readCells table (row + 1) rest).map (cell :: ·)

def ColumnDocument.info (c : ColumnDocument) : ColumnInfo :=
  ⟨c.name, c.kind, c.subtype, c.link.getD .none, c.extra⟩

def TableDocument.addColumns (t : Table) : List ColumnDocument → Except StorageError Table
  | [] => .ok t
  | c :: rest => do
    let cells ← c.readCells t.name 0 c.cells
    match t.addColumnWithCells c.info cells with
    | (.ok _, t) => addColumns t rest
    | (.error e, t) => throw (.table t.name e)

def TableDocument.toTable (d : TableDocument) : Except StorageError Table :=
  addColumns
    { Table.empty d.name with
      workingDir := d.workingDir
      creation := d.creation
      linkPolicy := d.linkPolicy.getD .standard }
    d.columns

mutual

/-- Adds the children of a stored form, and all below them, under a table. -/
def TableDocument.plant (parent : TableId) (f : Forest) :
    TableDocument → Except StorageError Forest
  | ⟨name, _, _, _, _, children⟩ => TableDocument.plantAll name parent f children

/-- Adds stored tables, and all below them, under a table of a name. -/
def TableDocument.plantAll (name : String) (parent : TableId) (f : Forest) :
    List TableDocument → Except StorageError Forest
  | [] => .ok f
  | d :: rest => do
    let t ← d.toTable
    match f.insertChild parent t with
    | .error e => throw (.table name e)
    | .ok (id, f) => TableDocument.plantAll name parent (← d.plant id f) rest

end

/-- Adds stored tables, and all below them, as roots. -/
def TreeDocument.plantRoots (f : Forest) : List TableDocument → Except StorageError Forest
  | [] => .ok f
  | d :: rest => do
    let t ← d.toTable
    let (id, f) := f.insertRoot t
    plantRoots (← d.plant id f) rest

/-- The forest of a stored form, which must not be of a later version. -/
def TreeDocument.toForest (d : TreeDocument) : Except StorageError Forest :=
  if documentVersion < d.version then
    .error (.version d.version.toNat documentVersion.toNat)
  else plantRoots .empty d.tables

end TableForest
