import TableForest.Adapter.Builtin
import TableForest.Command.Basic
import TableForest.Command.Error
import TableForest.Command.Report
import TableForest.Csv.Table
import TableForest.Csv.Writer
import TableForest.Document.File

/-!
# Running commands

A command reads files, prints a text and may write one file, which it does as its last step.  Here it is a
function on file systems.  Its answer comes with the files as they are then, also if it fails.
-/

namespace TableForest.Command

/-- A part of a command that changes no files. -/
abbrev Step := Except CommandError

/-- The answer of a command, and the files afterwards. -/
abbrev Outcome (α : Type) := Except CommandError α × FileSystem

/-- Goes on after a part that changes no files; its failure is that of the command. -/
def after {α β : Type} (fs : FileSystem) (step : Step β) (next : β → Outcome α) : Outcome α :=
  match step with
  | .ok b => next b
  | .error e => (.error e, fs)

/-- The answer to a command that has written a file, which is a text to print. -/
def written (wrap : StorageError → CommandError) (text : String)
    (result : Except StorageError Unit × FileSystem) : Outcome String :=
  ((result.1.mapError wrap).map fun _ => text, result.2)

def load (fs : FileSystem) (p : Path) : Step Forest :=
  (do (← DocumentFile.openPath fs p).document.toForest).mapError (.load p)

/-- Writes a forest as the document at a path. -/
def save (fs : FileSystem) (f : Forest) (p : Path) (text : String) : Outcome String :=
  after fs ((DocumentFile.ofForest f).mapError (.save p)) fun d =>
    written (.save p) text (d.writeTo fs .pretty p)

def find (f : Forest) (path : String) : Step TableId :=
  match f.findPath? path with
  | some id => .ok id
  | none => .error (.noTable path)

def tableOf (f : Forest) (id : TableId) : Step Table :=
  (f.table id).mapError .table

def delimiterByte (c : Char) : Step UInt8 :=
  if c.toNat < 0x80 then .ok (UInt8.ofNat c.toNat) else .error .badDelimiter

def runInspect (fs : FileSystem) (document : Path) : Step String := do
  let f ← load fs document
  return Report.ofLines (← (Report.forestLines f).mapError .table)

/-- The subtype that is asked for, or that of the kind. -/
def chosenSubtype (kind : Kind) (subtype : Option String) : Step Tag :=
  match subtype with
  | some s => (Tag.parse s).mapError .cell
  | none => .ok kind.defaultTag

def converted (f : Forest) (r : ConvertRequest) : Step Forest := do
  let id ← find f r.table
  let kind ← (Kind.parse r.kind).mapError .cell
  let subtype ← chosenSubtype kind r.subtype
  let t ← tableOf f id
  let column ← (t.requireColumn r.column).mapError .table
  match t.convertColumn column kind subtype with
  | (.ok (), t) => return f.setTable id t
  | (.error e, _) => throw (.conversion r.column kind e)

def runConvert (fs : FileSystem) (r : ConvertRequest) : Outcome String :=
  after fs (load fs r.document) fun f =>
    after fs (converted f r) fun f => save fs f (r.output.getD r.document) ""

/-- The table that is read, and the forest that it is put into. -/
def imported (fs : FileSystem) (r : ImportRequest) : Step (Table × Forest) := do
  let options := { Csv.ReadOptions.standard with
    delimiter := ← delimiterByte r.delimiter
    hasHeaders := r.hasHeaders
    infer := r.infer }
  let t ← (Csv.readTableAt fs options r.csv).mapError (.read r.csv)
  let f ← if r.append && fs.pathExists r.output then load fs r.output else .ok .empty
  return (t, f)

def runImport (fs : FileSystem) (r : ImportRequest) : Outcome String :=
  after fs (imported fs r) fun (t, f) =>
    save fs (f.insertRoot t).2 r.output s!"imported `{t.name}` ({t.rows} rows) into {r.output.text}\n"

/-- The table that is to be written, and how. -/
def exported (fs : FileSystem) (r : ExportRequest) : Step (Table × Csv.WriteOptions) := do
  let f ← load fs r.document
  let t ← tableOf f (← find f r.table)
  if t.columns.isEmpty then throw (.noColumns r.table)
  return (t, { Csv.WriteOptions.standard with delimiter := ← delimiterByte r.delimiter })

def runExport (fs : FileSystem) (r : ExportRequest) : Outcome String :=
  after fs (exported fs r) fun (t, options) =>
    written (.write r.output) "" (Csv.writeTableTo fs options t r.output)

def execute (fs : FileSystem) : Command → Outcome String
  | inspect document => (runInspect fs document, fs)
  | convert request => runConvert fs request
  | importCsv request => runImport fs request
  | exportCsv request => runExport fs request
  | adapters => (.ok (Report.ofLines (Report.registryLines .builtin)), fs)
  | help text => (.ok text, fs)

/-- What is printed, and the files afterwards. -/
structure Printed where
  text : String
  files : FileSystem

/-- What a command comes to that succeeds. -/
def run (fs : FileSystem) (c : Command) : Step Printed :=
  match c.execute fs with
  | (.ok text, files) => .ok ⟨text, files⟩
  | (.error e, _) => .error e

/-- What the arguments of the program come to; it is no command's failure if they ask for none. -/
def line (fs : FileSystem) (args : List Argument) : Except (Option CommandError) String × FileSystem :=
  match ofArguments? args with
  | some c => ((c.execute fs).1.mapError some, (c.execute fs).2)
  | none => (.error none, fs)

end TableForest.Command
