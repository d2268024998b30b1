import TableForest.Cell.Tag

/-!
# Failures of a single cell

What goes wrong while a value, a kind or a subtype is read from text or put into a cell.
-/

namespace TableForest

/-- A failure of a single cell. -/
inductive CellError where
  | unreadable (kind : Kind) (text : String)
  | kindMismatch (expected found : Kind)
  | unknownKind (text : String)
  | invalidSubtype (text : String)
  deriving DecidableEq, Repr

def CellError.message : CellError → String
  | unreadable kind text => s!"cannot parse `{text}` as a {kind.name} value"
  | kindMismatch expected found => s!"expected a {expected.name} value, found {found.name}"
  | unknownKind text => s!"unknown element kind `{text}`"
  | invalidSubtype text => s!"invalid subtype `{text}`"

def Kind.parse (s : String) : Except CellError Kind :=
  match Kind.read? s with
  | some kind => .ok kind
  | none => .error (.unknownKind s)

/-- The subtype that a text spells; a failure shows the text without the blanks around it. -/
def Tag.parse (s : String) : Except CellError Tag :=
  match Tag.read? s with
  | some tag => .ok tag
  | none => .error (.invalidSubtype (Text.trim s))

end TableForest
