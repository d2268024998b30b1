import TableForest.Adapter.Error
import TableForest.Cell.Basic

/-!
# Adapters

A reader makes items of one type from cells of one kind, and a writer puts items of one type into cells
of one kind.  Both refuse cells of other kinds before anything else.  A writer may also write files; what
it wrote stays even if it fails.
-/

namespace TableForest

/-- What a reader reads and gives. -/
structure ReaderInfo where
  name : String
  kind : Kind
  subtypes : TagSet
  type : ItemType
  /-- The reader is not offered for constants. -/
  isHidden : Bool

namespace ReaderInfo

/-- The reader reads cells of a kind and a subtype. -/
def accepts (r : ReaderInfo) (kind : Kind) (subtype : Tag) : Bool :=
  r.kind = kind && r.subtypes.accepts subtype

/-- The subtype of constants for the reader: the first that is no wildcard, or that of its kind. -/
def constantSubtype (r : ReaderInfo) : Tag :=
  (r.subtypes.tags.find? (!·.isAny)).getD r.kind.defaultTag

end ReaderInfo

/-- What a writer takes and writes. -/
structure WriterInfo where
  name : String
  type : ItemType
  kind : Kind
  subtype : Tag
  linkExtension : Option String

/-- A cell of another kind is refused. -/
def checkKind (adapter : String) (expected : Kind) (c : Cell) : Except BindingError Unit :=
  if c.kind = expected then .ok () else .error (.cellKind adapter expected c.kind)

/-- Makes items from cells. -/
structure Reader where
  info : ReaderInfo
  convert : Cell → PathContext → FileSystem → Except BindingError info.type.Carrier

def Reader.read (r : Reader) (c : Cell) (context : PathContext) (fs : FileSystem) :
    Except BindingError Item := do
  checkKind r.info.name r.info.kind c
  return ⟨r.info.type, ← r.convert c context fs⟩

/-- Puts items into cells. -/
structure Writer where
  info : WriterInfo
  convert : info.type.Carrier → Cell → PathContext → FileSystem →
    Except BindingError Cell × FileSystem

/-- The cell that a writer makes of a cell and an item, and the files afterwards. -/
def Writer.write (w : Writer) (x : Item) (c : Cell) (context : PathContext) (fs : FileSystem) :
    Except BindingError Cell × FileSystem :=
  match checkKind w.info.name w.info.kind c with
  | .error e => (.error e, fs)
  | .ok () =>
    match x.as? w.info.type with
    | some v => w.convert v c context fs
    | none => (.error (.typeMismatch w.info.type x.type), fs)

end TableForest
