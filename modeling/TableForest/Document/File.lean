import TableForest.Document.Json
import TableForest.Files.FileSystem

/-!
# Document files

A document together with the path it was read from, to which it can be saved again.
-/

namespace TableForest

/-- A document and where it came from. -/
structure DocumentFile where
  document : TreeDocument
  path : Option Path

namespace DocumentFile

/-- A document without tables, of no version yet. -/
def blank : DocumentFile := ⟨⟨0, []⟩, none⟩

/-- The document of a forest, which comes from nowhere. -/
def ofForest (f : Forest) : Except StorageError DocumentFile := do
  return ⟨← TreeDocument.ofForest f, none⟩

def ofBytes (bs : Bytes) : Except StorageError DocumentFile :=
  match TreeDocument.read? bs with
  | some d => .ok ⟨d, none⟩
  | none => .error .json

/-- The document in the file at a path; a directory is no document. -/
def openPath (fs : FileSystem) (p : Path) : Except StorageError DocumentFile :=
  match fs.read p with
  | .ok bs => (ofBytes bs).map ({ · with path := some p })
  | .error .isADirectory => .error .json
  | .error e => .error (.files e)

/-- The bytes of a document, which it has only if all paths in it are text. -/
def encode (d : DocumentFile) (style : Json.Style) : Except StorageError Bytes :=
  match d.document.written style with
  | (bs, true) => .ok bs
  | (_, false) => .error .json

/-- Writes a document to a path.  The file is empty as soon as it is open, and keeps what gets into it, also
if that is not the whole document. -/
def writeTo (d : DocumentFile) (fs : FileSystem) (style : Json.Style) (p : Path) :
    Except StorageError Unit × FileSystem :=
  match fs.create p with
  | .error e => (.error (.files e), fs)
  | .ok (l, fs) =>
    match d.document.written style with
    | (bs, true) => (.ok (), fs.append l bs)
    | (bs, false) => (.error .json, fs.append l bs)

def saveTo (d : DocumentFile) (fs : FileSystem) (style : Json.Style) (p : Path) :
    Except StorageError FileSystem :=
  match d.writeTo fs style p with
  | (.ok (), fs) => .ok fs
  | (.error e, _) => .error e

def saveInPlace (d : DocumentFile) (fs : FileSystem) (style : Json.Style) :
    Except StorageError FileSystem :=
  match d.path with
  | some p => d.saveTo fs style p
  | none => .error (.backend "json" "no known path for in-place save")

end DocumentFile
end TableForest
