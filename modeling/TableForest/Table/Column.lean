import TableForest.Cell.Basic
import TableForest.Dict
import TableForest.Files.Path

/-!
# Columns

A column describes its cells: name, kind, subtype, the settings for the files that its cells link, and
notes by key.  Its cells stand beside the description.
-/

namespace TableForest

/-- How new links of a column are named. -/
structure LinkDefaults where
  baseDir : Option Path
  /-- The start of the file name; the name of the column stands in for it. -/
  stem : Option String
  /-- The extension, without a dot. -/
  extension : Option String
  counter : UInt32
  deriving DecidableEq

namespace LinkDefaults

def none : LinkDefaults := ⟨.none, .none, .none, 0⟩

/-- A text without the dots in front. -/
def dropDots (s : String) : String :=
  String.ofList (s.toList.dropWhile (· = '.'))

/-- Settings with an extension; dots in front are dropped, and nothing means none. -/
def withExtension (d : LinkDefaults) (extension : String) : LinkDefaults :=
  let rest := dropDots extension
  { d with extension := if rest.isEmpty then .none else some rest }

/-- Links can be made. -/
def isConfigured (d : LinkDefaults) : Bool :=
  d.baseDir.isSome

end LinkDefaults

/-- The description of a column. -/
structure ColumnInfo where
  name : String
  kind : Kind
  subtype : Tag
  link : LinkDefaults
  extra : Dict String
  deriving DecidableEq

namespace ColumnInfo

/-- A column of a kind with its default subtype and nothing else. -/
def ofKind (name : String) (kind : Kind) : ColumnInfo :=
  ⟨name, kind, kind.defaultTag, .none, .empty⟩

def linkStem (c : ColumnInfo) : String :=
  c.link.stem.getD c.name

def blank (c : ColumnInfo) : Cell :=
  .blank c.kind c.subtype

end ColumnInfo

/-- A column with its cells, from the first row on. -/
structure Column where
  info : ColumnInfo
  cells : List Cell
  deriving DecidableEq

end TableForest
