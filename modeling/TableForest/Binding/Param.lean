import TableForest.Adapter.Item
import TableForest.Cell.Tag

/-!
# Parameters of routines

A routine declares its parameters: what it takes and what it gives, by name and type.  A parameter may
also restrict the kind and the subtypes of the columns that it is bound to, and may be left unbound.
-/

namespace TableForest

/-- Whether a routine takes a parameter or gives it. -/
inductive Direction where
  | input
  | output
  deriving DecidableEq, Repr

/-- One parameter of a routine. -/
structure ParamSpec where
  name : String
  label : Option String
  direction : Direction
  type : ItemType
  kind : Option Kind
  subtypes : TagSet
  required : Bool
  deriving DecidableEq

namespace ParamSpec

/-- The label that is shown: the parameter's own, or its name. -/
def shownLabel (p : ParamSpec) : String :=
  p.label.getD p.name

def isInput (p : ParamSpec) : Bool :=
  p.direction = .input

/-- The parameter can be bound to columns of a kind and a subtype. -/
def admits (p : ParamSpec) (kind : Kind) (subtype : Tag) : Bool :=
  (match p.kind with
    | some k => k = kind
    | none => true) && p.subtypes.accepts subtype

end ParamSpec

/-- The name and the parameters of a routine. -/
structure RoutineSpec where
  name : String
  params : List ParamSpec
  deriving DecidableEq

namespace RoutineSpec

def find? (r : RoutineSpec) (name : String) : Option ParamSpec :=
  r.params.find? (·.name = name)

def inputs (r : RoutineSpec) : List ParamSpec :=
  r.params.filter ParamSpec.isInput

def outputs (r : RoutineSpec) : List ParamSpec :=
  r.params.filter (!·.isInput)

end RoutineSpec
end TableForest
