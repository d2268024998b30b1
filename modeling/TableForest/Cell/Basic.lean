import TableForest.Cell.Value

/-!
# Cells

A value with its subtype.  Assignments keep the kind: a value of another kind is refused, and text is
read under the kind that the cell has.
-/

namespace TableForest

/-- One typed value. -/
structure Cell where
  value : Value
  subtype : Tag
  deriving DecidableEq

namespace Cell

def blank (kind : Kind) (subtype : Tag) : Cell :=
  ⟨kind.defaultValue, subtype⟩

def parse (kind : Kind) (subtype : Tag) (s : String) : Except CellError Cell :=
  (Value.parse kind s).map (⟨·, subtype⟩)

def kind (c : Cell) : Kind :=
  c.value.kind

def text (c : Cell) : String :=
  c.value.toText

/-- The path that a cell links, if it links one. -/
def link? (c : Cell) : Option String :=
  c.value.asLink?

def setValue (c : Cell) (v : Value) : Except CellError Cell :=
  if v.kind = c.kind then .ok { c with value := v }
  else .error (.kindMismatch c.kind v.kind)

/-- The cell with the value that a text spells under its kind. -/
def setText (c : Cell) (s : String) : Except CellError Cell :=
  (Value.parse c.kind s).map fun v => { c with value := v }

def isCompatible (c : Cell) (kind : Kind) (subtype : Tag) : Bool :=
  c.kind = kind && c.subtype = subtype

/-- Equality of cells; numbers compare as numbers. -/
def same (a b : Cell) : Bool :=
  a.value.same b.value && a.subtype = b.subtype

end Cell
end TableForest
