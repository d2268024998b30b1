import TableForest.Binding.Chooser

/-!
# Resolving parameters

First the candidates of all parameters are listed, and only then is the chooser asked, once for each
parameter that has candidates.  Its answers become bindings: inputs that can be read row by row, and plans
for the columns of the outputs.
-/

namespace TableForest

/-- What an input is bound to. -/
inductive InputBinding where
  | column (index : Nat) (reader : Reader)
  | constant (cell : Cell) (reader : Reader)

namespace InputBinding

def isConstant : InputBinding → Bool
  | constant _ _ => true
  | column _ _ => false

/-- The item of a row; a constant is the same in every row. -/
def read (t : Table) (fs : FileSystem) (row : Nat) : InputBinding → Except BindingError Item
  | column index reader =>
    match t.cell index row with
    | .ok c => reader.read c t.pathContext fs
    | .error e => .error (.table e)
  | constant c reader => reader.read c t.pathContext fs

end InputBinding

/-- How the column of an output is made and filled. -/
structure OutputPlan where
  param : ParamSpec
  writer : Writer
  link : Option LinkTemplate

def OutputPlan.columnInfo (plan : OutputPlan) : ColumnInfo :=
  let w := plan.writer.info
  { ColumnInfo.ofKind plan.param.name w.kind with
    subtype := w.subtype
    link := match plan.link with
      | none => .none
      | some l =>
        let d : LinkDefaults := ⟨some l.baseDir, some l.stem, none, 0⟩
        match l.extension with
        | some e => d.withExtension e
        | none => d }

/-- The bindings of the parameters that were chosen, in order. -/
structure Bindings where
  routine : String
  inputs : List (String × InputBinding)
  outputs : List OutputPlan
  selections : Dict String

namespace Bindings

def empty (routine : String) : Bindings := ⟨routine, [], [], .empty⟩

def input? (b : Bindings) (name : String) : Option InputBinding :=
  b.inputs.lookup name

def addInput (b : Bindings) (param description : String) (binding : InputBinding) : Bindings :=
  { b with
    inputs := b.inputs ++ [(param, binding)]
    selections := b.selections.insert param description }

def addOutput (b : Bindings) (description : String) (plan : OutputPlan) : Bindings :=
  { b with
    outputs := b.outputs ++ [plan]
    selections := b.selections.insert plan.param.name description }

/-- Binds a parameter to the candidate that was chosen.  A constant takes a value and nothing else does. -/
def bind (b : Bindings) (p : ParamSpec) (c : Candidate) (s : Selection) :
    Except BindingError Bindings :=
  match c, s with
  | .column index _ reader, .candidate _ =>
    .ok (b.addInput p.name c.describe (.column index reader))
  | .constant reader, .constant _ text =>
    match Cell.parse reader.info.kind reader.info.constantSubtype text with
    | .ok cell => .ok (b.addInput p.name s!"constant {text}" (.constant cell reader))
    | .error e => .error (.invalidSelection p.name (.unreadable e))
  | .constant _, .candidate _ => .error (.invalidSelection p.name .needsValue)
  | .newColumn writer link, .candidate _ => .ok (b.addOutput c.describe ⟨p, writer, link⟩)
  | .column _ _ _, .constant _ _ => .error (.invalidSelection p.name (.notConstant c.describe))
  | .newColumn _ _, .constant _ _ => .error (.invalidSelection p.name (.notConstant c.describe))

def take (b : Bindings) (p : ParamSpec) (found : List Candidate) (answer : Option Selection) :
    Except BindingError Bindings :=
  match answer with
  | none => if p.required then .error (.missingSelection p.name) else .ok b
  | some s =>
    match found[s.index]? with
    | some c => b.bind p c s
    | none => .error (.invalidSelection p.name (.outOfRange s.index found.length))

end Bindings

variable {σ : Type}

def chooseEach (chooser : Chooser σ) (b : Bindings) (s : σ) :
    List (ParamSpec × List Candidate) → Except BindingError Bindings × σ
  | [] => (.ok b, s)
  | (p, found) :: rest =>
    match chooser p found s with
    | (.error e, s) => (.error e, s)
    | (.ok answer, s) =>
      match b.take p found answer with
      | .error e => (.error e, s)
      | .ok b => chooseEach chooser b s rest

/-- The bindings of the parameters of a routine to a table. -/
def resolve (registry : Registry) (config : ResolverConfig) (t : Table) (spec : RoutineSpec)
    (chooser : Chooser σ) (s : σ) : Except BindingError Bindings × σ :=
  match enumerate registry config t spec.params with
  | .error e => (.error e, s)
  | .ok found => chooseEach chooser (.empty spec.name) s found

end TableForest
