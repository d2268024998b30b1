import TableForest.Binding.Chooser
import TableForest.Dict
import TableForest.Yaml.Value

/-!
# Presets

Answers that are known beforehand, by parameter: a column, a constant, a writer, the number of a
candidate, or to break off.  A parameter without a preset gets no answer.
-/

namespace TableForest

/-- A stored answer for one parameter. -/
inductive Preset where
  /-- The first column of a name, through a reader if one is named. -/
  | column (name : String) (reader : Option String)
  /-- A constant, through the first reader or the one that is named. -/
  | constant (value : Yaml) (reader : Option String)
  | writer (name : String)
  | index (index : Nat)
  /-- To break off, or not to answer. -/
  | cancel (really : Bool)

namespace Preset

/-- The candidate goes through the adapter that is named, if one is. -/
def goesThrough (reader : Option String) (c : Candidate) : Bool :=
  match reader with
  | some name => c.adapterName = name
  | none => true

/-- The first candidate with a property, or the failure that there is none. -/
def findCandidate (param : String) (found : List Candidate) (wanted : String)
    (property : Candidate → Bool) : Except BindingError Nat :=
  match found.findIdx? property with
  | some i => .ok i
  | none => .error (.invalidSelection param (.noMatch wanted))

def select (param : String) (found : List Candidate) :
    Preset → Except BindingError (Option Selection)
  | column name reader => do
    let i ← findCandidate param found s!"column `{name}`" fun c =>
      c.isColumnNamed name && goesThrough reader c
    return some (.candidate i)
  | constant value reader => do
    let i ← findCandidate param found "a constant" fun c =>
      c.isConstant && goesThrough reader c
    match value.scalarText? with
    | some text => return some (.constant i text)
    | none => throw (.invalidSelection param .notScalar)
  | writer name => do
    let i ← findCandidate param found s!"writer `{name}`" fun c =>
      c.isNewColumn && c.adapterName = name
    return some (.candidate i)
  | index i => return some (.candidate i)
  | cancel true => throw .cancelled
  | cancel false => return none

end Preset

def presetChooser {σ : Type} (presets : Dict Preset) : Chooser σ := fun p found s =>
  match presets.get? p.name with
  | some preset => (preset.select p.name found, s)
  | none => (.ok none, s)

end TableForest
