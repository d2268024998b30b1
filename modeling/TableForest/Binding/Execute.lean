import TableForest.Binding.Row
import TableForest.Forest.Basic
import TableForest.Table.Link

/-!
# Running routines

A routine runs once for each row of a table, in order, and its outputs fill a new table, which becomes the
last child of the one it was computed from.  All parameters are bound before the first row.  If anything
fails the forest stays as it was; files that have been written stay too.
-/

namespace TableForest

/-- A computation on rows, with a state of its own. -/
structure Routine (τ : Type) where
  spec : RoutineSpec
  run : RowInputs → τ → Except String RowOutputs × τ

/-- Writes an item into a cell of a column; an empty file link gets a new link first.  The cell and the
counter of the column change only if the writer succeeds. -/
def Writer.writeAt (w : Writer) (t : Table) (fs : FileSystem) (column row : Nat) (x : Item) :
    Except BindingError Unit × Table × FileSystem :=
  let edit : CellEdit BindingError FileSystem := fun c fs => w.write x c t.pathContext fs
  if w.info.kind = .fileLink then
    t.updateLinkedCell fs.pathExists column row .table edit fs
  else t.updateCell column row .table edit fs

variable {σ τ : Type}

/-- Adds a column for each output. -/
def addOutputColumns (t : Table) : List OutputPlan → Except BindingError Table
  | [] => .ok t
  | plan :: rest =>
    match t.addColumn plan.columnInfo with
    | (.ok _, t) => addOutputColumns t rest
    | (.error e, _) => .error (.table e)

def addRows (t : Table) : Nat → Except BindingError Table
  | 0 => .ok t
  | n + 1 =>
    match t.addRow with
    | (.ok _, t) => addRows t n
    | (.error e, _) => .error (.table e)

/-- The table that the outputs of a routine go into, before the first row. -/
def prepareResult (source : Table) (name : String) (outputs : List OutputPlan) :
    Except BindingError Table := do
  let t ← addOutputColumns { Table.empty name with workingDir := source.workingDir } outputs
  -- a table without columns has no rows
  if outputs.isEmpty then return t else addRows t source.rows

/-- Writes the outputs of a row, the first of them into column `column` and so on. -/
def writeOutputs (routine : String) (row : Nat) (t : Table) (fs : FileSystem) (given : RowOutputs)
    (column : Nat) : List OutputPlan → Except BindingError Table × FileSystem
  | [] => (.ok t, fs)
  | plan :: rest =>
    match given.take plan.param.name with
    | (some x, given) =>
      match plan.writer.writeAt t fs column row x with
      | (.ok (), t, fs) => writeOutputs routine row t fs given (column + 1) rest
      | (.error e, _, fs) => (.error e, fs)
    | (none, given) =>
      -- an output that may be missing leaves the default cell
      if plan.param.required then (.error (.missingOutput routine plan.param.name row), fs)
      else writeOutputs routine row t fs given (column + 1) rest

/-- Runs a routine for some rows: reads the inputs, runs it, and writes the outputs. -/
def runRows (routine : Routine τ) (b : Bindings) (source : Table) (t : Table) (fs : FileSystem)
    (state : τ) : List Nat → Except BindingError Table × FileSystem × τ
  | [] => (.ok t, fs, state)
  | row :: rest =>
    match b.readRow source fs row with
    | .error e => (.error e, fs, state)
    | .ok inputs =>
      match routine.run inputs state with
      | (.error cause, state) => (.error (.routine routine.spec.name row cause), fs, state)
      | (.ok given, state) =>
        match writeOutputs routine.spec.name row t fs given 0 b.outputs with
        | (.error e, fs) => (.error e, fs, state)
        | (.ok t, fs) => runRows routine b source t fs state rest

/-- What a run leaves behind. -/
structure Outcome (σ τ : Type) where
  result : Except BindingError TableId
  forest : Forest
  files : FileSystem
  chooser : σ
  routine : τ

/-- Runs a bound routine and puts its result under the table it was computed from. -/
def runBound (f : Forest) (parent : TableId) (source : Table) (fs : FileSystem) (routine : Routine τ)
    (b : Bindings) (now : Moment) (s : σ) (r : τ) : Outcome σ τ :=
  match prepareResult source routine.spec.name b.outputs with
  | .error e => ⟨.error e, f, fs, s, r⟩
  | .ok t =>
    match runRows routine b source t fs r (List.range source.rows) with
    | (.error e, fs, r) => ⟨.error e, f, fs, s, r⟩
    | (.ok t, fs, r) =>
      -- only a complete table is put into the forest
      let made := { t with creation := some ⟨routine.spec.name, b.selections, now⟩ }
      match f.insertChild parent made with
      | .error e => ⟨.error (.table e), f, fs, s, r⟩
      | .ok (id, f) => ⟨.ok id, f, fs, s, r⟩

/-- Binds the parameters of a routine to a table and runs it there. -/
def execute (f : Forest) (fs : FileSystem) (parent : TableId) (routine : Routine τ)
    (registry : Registry) (config : ResolverConfig) (chooser : Chooser σ) (now : Moment) (s : σ)
    (r : τ) : Outcome σ τ :=
  match f.table parent with
  | .error e => ⟨.error (.table e), f, fs, s, r⟩
  | .ok source =>
    match resolve registry config source routine.spec chooser s with
    | (.error e, s) => ⟨.error e, f, fs, s, r⟩
    | (.ok b, s) => runBound f parent source fs routine b now s r

end TableForest
