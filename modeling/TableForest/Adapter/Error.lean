import TableForest.Adapter.Item
import TableForest.Files.FileSystem
import TableForest.Table.Error

/-!
# Failures of binding

What goes wrong while the parameters of a routine are bound to a table, and while the routine runs.
-/

namespace TableForest

/-- What is wrong with the answer for a parameter. -/
inductive SelectionFault where
  /-- There is no candidate of that number. -/
  | outOfRange (index count : Nat)
  | unreadable (cause : CellError)
  | needsValue
  /-- A value was given for a candidate that takes none. -/
  | notConstant (candidate : String)
  /-- No candidate is of the column, the writer or the class asked for. -/
  | noMatch (wanted : String)
  | notScalar
  deriving DecidableEq

def SelectionFault.message : SelectionFault → String
  | outOfRange index count => s!"index {index} out of {count} candidates"
  | unreadable cause => cause.message
  | needsValue => "a constant candidate needs a value"
  | notConstant candidate => s!"{candidate} is not a constant"
  | noMatch wanted => s!"no candidate matches {wanted}"
  | notScalar => "constants must be scalars"

/-- A failure to bind parameters or to run a routine. -/
inductive BindingError where
  /-- A parameter that has to be bound has no candidates. -/
  | noCandidates (param table : String)
  /-- A parameter that has to be bound was left out. -/
  | missingSelection (param : String)
  | cancelled
  | invalidSelection (param : String) (fault : SelectionFault)
  /-- An adapter met a cell of another kind than its own. -/
  | cellKind (adapter : String) (expected found : Kind)
  /-- An item was asked for by another type than its own. -/
  | typeMismatch (expected found : ItemType)
  /-- An integer is too great or too small for a type. -/
  | outOfRange (value : Int64) (target : ItemType)
  /-- An adapter needs a link and the cell has none. -/
  | emptyLink (adapter : String)
  | unknownParameter (routine param : String)
  /-- The routine gave no value for an output that it has to give. -/
  | missingOutput (routine param : String) (row : Nat)
  | routine (name : String) (row : Nat) (cause : String)
  | selections
  | files (cause : FileError)
  | table (cause : TableError)
  | cell (cause : CellError)
  deriving DecidableEq

namespace BindingError

/-- The wording of a failure; what the file system or the reader of presets says about it is left out. -/
def message : BindingError → String
  | noCandidates param tableName =>
    s!"parameter `{param}` has no compatible column or constant in table `{tableName}`"
  | missingSelection param => s!"no selection was made for required parameter `{param}`"
  | cancelled => "parameter selection was cancelled"
  | invalidSelection param fault =>
    s!"invalid selection for parameter `{param}`: {fault.message}"
  | cellKind adapter expected found =>
    s!"adapter `{adapter}` handles {expected.name} cells, got {found.name}"
  | typeMismatch expected found =>
    s!"processed value has type `{found.name}`, expected `{expected.name}`"
  | outOfRange value target =>
    s!"value {Decimal.intText value.toInt} does not fit in `{target.name}`"
  | emptyLink adapter => s!"adapter `{adapter}` needs a file link but the cell is empty"
  | unknownParameter name param => s!"routine `{name}` has no parameter `{param}`"
  | missingOutput name param row =>
    s!"routine `{name}` did not produce output `{param}` for row {row}"
  | routine name row cause => s!"routine `{name}` failed at row {row}: {cause}"
  | selections => "failed to parse selections"
  | files _ => "I/O error"
  | table cause => cause.message
  | cell cause => cause.message

def link (cause : LinkError) : BindingError :=
  table (.link cause)

/-- The failure of a link in a failure, if it is one. -/
def asLinkError? : BindingError → Option LinkError
  | table (.link cause) => some cause
  | _ => none

def isCancelled (e : BindingError) : Bool :=
  e = cancelled

end BindingError
end TableForest
