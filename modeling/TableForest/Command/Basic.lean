import TableForest.Command.Help
import TableForest.Files.Path

/-!
# Commands

What can be asked for on the command line: to show the tables of a document or the adapters, to give a
column another kind, to take a table from CSV or write one as CSV, and to be told how to ask.
-/

namespace TableForest

/-- A request to give a column another kind. -/
structure ConvertRequest where
  document : Path
  /-- The names of tables from a root on, between slashes. -/
  table : String
  column : String
  kind : String
  /-- The subtype, unless it is that of the kind. -/
  subtype : Option String
  /-- Where the document goes, unless it is written over. -/
  output : Option Path
  deriving DecidableEq, Repr

/-- A request to read a table from CSV. -/
structure ImportRequest where
  csv : Path
  output : Path
  append : Bool
  hasHeaders : Bool
  infer : Bool
  delimiter : Char
  deriving DecidableEq, Repr

/-- A request to write a table as CSV. -/
structure ExportRequest where
  document : Path
  table : String
  output : Path
  delimiter : Char
  deriving DecidableEq, Repr

/-- What is asked for on the command line. -/
inductive Command where
  | inspect (document : Path)
  | convert (request : ConvertRequest)
  | importCsv (request : ImportRequest)
  | exportCsv (request : ExportRequest)
  | adapters
  | help (text : String)
  deriving DecidableEq, Repr

namespace Command

/-- The paths that a command reads from or writes to. -/
def paths : Command → List Path
  | inspect document => [document]
  | convert r => r.document :: r.output.toList
  | importCsv r => [r.csv, r.output]
  | exportCsv r => [r.document, r.output]
  | adapters => []
  | help _ => []

/-! ## Forms -/

/-- Asks for more messages about what goes on; every command takes it, and before the command it may
stand too. -/
def verbose : CommandOption :=
  (CommandOption.switch "verbose" "Log at debug level unless RUST_LOG says otherwise").withLetter 'v'

def output (about : String) : CommandOption :=
  (CommandOption.valued "output" about .path).withLetter 'o'

/-- The table that is meant, by the names from a root on. -/
def tableOption (about : String) : CommandOption :=
  (CommandOption.valued "table" about .text).required

def delimiter : CommandOption :=
  (CommandOption.valued "delimiter" "" .character).withStandard ","

def programForm : CommandForm :=
  ⟨Help.programName, "Inspect, convert, and exchange SlideSet table documents", none, [verbose]⟩

def inspectForm : CommandForm :=
  ⟨"inspect", "Print the table tree with columns and row counts", some "document", [verbose]⟩

def convertForm : CommandForm :=
  ⟨"convert", "Re-type a column through its text form", some "document",
    [tableOption "`/`-separated table names from a root, e.g. `experiment/Measure`",
      verbose,
      (CommandOption.valued "column" "" .text).required,
      (CommandOption.valued "kind" "" .text).required,
      CommandOption.valued "subtype" "Defaults to the kind's own subtype" .text,
      output "Write here instead of overwriting the document"]⟩

def importForm : CommandForm :=
  ⟨"import-csv", "Read a CSV file into a new root table", some "csv",
    [(output "").required,
      verbose,
      .switch "append" "Add the table to an existing document instead of replacing it",
      .switch "no-headers" "Name columns C1, C2, ... and treat the first record as data",
      .switch "no-infer" "Read every column as text",
      delimiter]⟩

def exportForm : CommandForm :=
  ⟨"export-csv", "Write one table of a document as CSV", some "document",
    [tableOption "", verbose, (output "").required, delimiter]⟩

def adaptersForm : CommandForm :=
  ⟨"adapters", "List the registered readers and writers", none, [verbose]⟩

def forms : List CommandForm :=
  [inspectForm, convertForm, importForm, exportForm, adaptersForm]

/-! ## Reading -/

/-- The operand, which is a path. -/
def operand? (a : Arguments) : Option Path :=
  a.operands.head?.map Path.mk

def path? (a : Arguments) (name : String) : Option Path :=
  (a.value? name).map Path.mk

/-- The delimiter, which has a value also if none is given. -/
def delimiter? (f : CommandForm) (a : Arguments) : Option Char := do
  (← f.textOf? a delimiter.name).toList.head?

def convertRequest? (a : Arguments) : Option ConvertRequest := do
  return {
    document := ← operand? a
    table := ← a.text? "table"
    column := ← a.text? "column"
    kind := ← a.text? "kind"
    subtype := a.text? "subtype"
    output := path? a "output" }

def importRequest? (a : Arguments) : Option ImportRequest := do
  return {
    csv := ← operand? a
    output := ← path? a "output"
    append := a.has "append"
    hasHeaders := !a.has "no-headers"
    infer := !a.has "no-infer"
    delimiter := ← delimiter? importForm a }

def exportRequest? (a : Arguments) : Option ExportRequest := do
  return {
    document := ← operand? a
    table := ← a.text? "table"
    output := ← path? a "output"
    delimiter := ← delimiter? exportForm a }

def ofArgumentsOf? (name : String) (a : Arguments) : Option Command :=
  match name with
  | "inspect" => (operand? a).map inspect
  | "convert" => (convertRequest? a).map convert
  | "import-csv" => (importRequest? a).map importCsv
  | "export-csv" => (exportRequest? a).map exportCsv
  | "adapters" => some adapters
  | _ => none

def form? (name : String) : Option CommandForm :=
  forms.find? (·.name = name)

/-- The help about the command of some names; no command has commands of its own. -/
def helpOn? : List String → Option String
  | [] => some (Help.ofProgram programForm forms)
  | [name] =>
    if name = Help.commandName then some Help.ofHelp else (form? name).map Help.ofCommand
  | _ => none

/-- The command of a name with the arguments that follow it. -/
def ofName? (name : String) (args : List Argument) : Option Command :=
  if name = Help.commandName then ((args.mapM Utf8.decode?).bind helpOn?).map help
  else do
    let f ← form? name
    let a ← f.read? args
    if a.asksForHelp then return help (Help.ofCommand f) else ofArgumentsOf? name a

def ofArguments? (args : List Argument) : Option Command := do
  let (leading, rest) ← programForm.splitLeading? .none args
  if leading.asksForHelp then (helpOn? []).map help
  else
    match rest with
    | name :: args => ofName? (← Utf8.decode? name) args
    | [] => none

end Command
end TableForest
