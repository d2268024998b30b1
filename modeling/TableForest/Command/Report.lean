import TableForest.Adapter.Registry
import TableForest.Forest.Basic
import TableForest.Moment.Text

/-!
# Reports

What commands show: the tables of a forest with their columns, each indented below the one above it, and
the adapters of a registry in columns.
-/

namespace TableForest

namespace Report

/-- The text of some lines, each with a line feed at its end. -/
def ofLines (lines : List String) : String :=
  String.join (lines.map (· ++ "\n"))

def padded (width : Nat) (s : String) : String :=
  s ++ String.ofList (List.replicate (width - s.length) ' ')

/-! ## Tables -/

/-- The link that the next file of a column gets, if the column says where links go. -/
def nextLinkText (policy : LinkPolicy) (c : ColumnInfo) : String :=
  match c.link.baseDir with
  | some dir =>
    " next link " ++ (policy.compose dir c.linkStem c.link.counter c.link.extension).text
  | none => ""

def columnLine (policy : LinkPolicy) (c : ColumnInfo) : String :=
  s!"  - {c.name}: {c.kind.name} [{c.subtype.text}]" ++ nextLinkText policy c

def creationLine (c : Creation) : String :=
  s!"  created by {c.command} at {c.created.text .offset}"

def tableLines (t : Table) : List String :=
  s!"{t.name} ({t.rows} rows, {t.columns.length} columns)"
    :: t.creation.toList.map creationLine ++ t.infos.map (columnLine t.linkPolicy)

def indentedLines (depth : Nat) (t : Table) : List String :=
  let indent := String.join (List.replicate depth "  ")
  (tableLines t).map (indent ++ ·)

def forestLines (f : Forest) : Except TableError (List String) := do
  let blocks ← f.walkAll.mapM fun id => do return indentedLines (← f.depth id) (← f.table id)
  return blocks.flatten

/-! ## Adapters -/

/-- The name, kind and subtypes of an adapter. -/
def adapterColumns (name kind subtypes : String) : String :=
  s!"  {padded 14 name} {padded 10 kind} {padded 12 subtypes}"

def readerLine (r : ReaderInfo) : String :=
  s!"{adapterColumns r.name r.kind.name r.subtypes.text} -> {r.type.shortName}"
    ++ if r.isHidden then " (hidden)" else ""

def writerLine (w : WriterInfo) : String :=
  s!"{adapterColumns w.name w.kind.name w.subtype.text} <- {w.type.shortName}"

def registryLines (r : Registry) : List String :=
  "readers:" :: r.readers.map (readerLine ·.info) ++ "writers:" :: r.writers.map (writerLine ·.info)

end Report
end TableForest
