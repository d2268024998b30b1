import TableForest.Binding.Resolver

/-!
# Rows of a routine

What a routine gets for one row, by parameter, and what it gives.
-/

namespace TableForest

/-- The items of a row that a routine has not taken yet. -/
structure RowInputs where
  routine : String
  row : Nat
  values : Dict Item

namespace RowInputs

/-- There is an item for a parameter. -/
def contains (r : RowInputs) (param : String) : Bool :=
  r.values.contains param

/-- The item for a parameter, if it is of a type. -/
def get? (r : RowInputs) (param : String) (t : ItemType) : Option t.Carrier :=
  (r.values.get? param).bind (·.as? t)

/-- Takes the item for a parameter that may be missing; an item of another type is gone all the same. -/
def takeIfBound (r : RowInputs) (param : String) (t : ItemType) :
    Except BindingError (Option t.Carrier) × RowInputs :=
  match r.values.get? param with
  | none => (.ok none, r)
  | some x =>
    let rest := { r with values := r.values.erase param }
    match x.as? t with
    | some v => (.ok (some v), rest)
    | none => (.error (.typeMismatch t x.type), rest)

def take (r : RowInputs) (param : String) (t : ItemType) :
    Except BindingError t.Carrier × RowInputs :=
  match r.takeIfBound param t with
  | (.ok (some v), rest) => (.ok v, rest)
  | (.ok none, rest) => (.error (.unknownParameter r.routine param), rest)
  | (.error e, rest) => (.error e, rest)

end RowInputs

/-- The items that a routine gives for a row. -/
structure RowOutputs where
  values : Dict Item

namespace RowOutputs

def empty : RowOutputs := ⟨.empty⟩

def set (r : RowOutputs) (param : String) (x : Item) : RowOutputs :=
  ⟨r.values.insert param x⟩

/-- The item for a parameter, and the outputs without it. -/
def take (r : RowOutputs) (param : String) : Option Item × RowOutputs :=
  (r.values.get? param, ⟨r.values.erase param⟩)

end RowOutputs

/-- Reads the bound inputs of a row one after the other. -/
def readInputs (t : Table) (fs : FileSystem) (row : Nat) (values : Dict Item) :
    List (String × InputBinding) → Except BindingError (Dict Item)
  | [] => .ok values
  | (name, binding) :: rest => do
    let x ← binding.read t fs row
    readInputs t fs row (values.insert name x) rest

def Bindings.readRow (b : Bindings) (t : Table) (fs : FileSystem) (row : Nat) :
    Except BindingError RowInputs :=
  (readInputs t fs row .empty b.inputs).map (⟨b.routine, row, ·⟩)

end TableForest
