import TableForest.Text.Blank

/-!
# Kinds of cells

The fixed storage shape of a cell.  A column has one kind, and a cell never changes its own.
-/

namespace TableForest

/-- The storage shape of a cell. -/
inductive Kind where
  | logical
  | integer
  | numeric
  | text
  | fileLink
  deriving DecidableEq, Repr

namespace Kind

/-- All kinds, in order. -/
def all : List Kind := [logical, integer, numeric, text, fileLink]

def name : Kind → String
  | logical => "logical"
  | integer => "integer"
  | numeric => "numeric"
  | text => "text"
  | fileLink => "file-link"

/-- Every name under which a kind is known, in lower case. -/
def ofName? : String → Option Kind
  | "logical" | "boolean" | "bool" => some logical
  | "integer" | "int" => some integer
  | "numeric" | "number" | "float" | "double" => some numeric
  | "text" | "string" => some text
  | "file-link" | "filelink" | "file" | "link" => some fileLink
  | _ => none

/-- The kind that a text names, in any case and between blanks. -/
def read? (s : String) : Option Kind :=
  ofName? (Text.lowerAscii (Text.trim s))

end Kind
end TableForest
