import TableForest.Proofs.Document.Renaming
import TableForest.Proofs.Document.TextPaths
import TableForest.Proofs.Forest.History

/-!
# Forests written and read back

Every forest with text paths can be written.  What is written is read back, up to the handles, exactly if the reader
has room for it: it refuses documents in which arrays and objects stand too deep inside each other, and the writer
does not look at that.

## The architecture

* **`Forest.Readable`** says it of a forest: no table is too deep for what is in it.
* **`readable_iff_shallow`** says the same of the stored form: the depth of a table is the number of positions that
  lead to it.
* **`round_trip_iff_readable`** takes the forest that was written and the one that is read together.
-/

namespace TableForest
namespace Forest

open TableDocument

/-- The reader has room for all tables.  Around a table stand the document and its list of tables, and an object
and a list for each table above; in it stand the object itself and the list of columns, and in a column its
object and the list of cells. -/
def Readable (f : Forest) : Prop :=
  ∀ id n depth, f.node? id = some n → f.depth id = .ok depth →
    2 * depth + (if n.table.columns.isEmpty then 4 else 6) ≤ Json.maxDepth

/-- The texts of all moments at which tables were made give the moments back. -/
def HasRegularMoments (f : Forest) : Prop :=
  ∀ id n creation, f.node? id = some n → n.table.creation = some creation → creation.created.IsRegular

instance (f : Forest) : Decidable f.Readable :=
  decidable_of_iff (∀ i < f.nodes.length, ∀ n ∈ f.node? ⟨i⟩, ∀ depth ∈ (f.depth ⟨i⟩).toOption,
    2 * depth + (if n.table.columns.isEmpty then 4 else 6) ≤ Json.maxDepth)
    ⟨fun h id n depth hn hdepth => h id.index (index_lt_of_node? hn) n hn depth (by rw [hdepth]; rfl),
      fun h i _ n hn depth hdepth => h ⟨i⟩ n depth hn (by
        cases hd : f.depth ⟨i⟩ with
        | ok k =>
          rw [hd] at hdepth
          rw [Option.some.inj hdepth]
        | error e =>
          rw [hd] at hdepth
          cases hdepth)⟩

instance (f : Forest) : Decidable f.HasRegularMoments :=
  decidable_of_iff (∀ i < f.nodes.length, ∀ n ∈ f.node? ⟨i⟩, ∀ c ∈ n.table.creation, c.created.IsRegular)
    ⟨fun h id n c hn hc => h id.index (index_lt_of_node? hn) n hn c hc, fun h i _ n hn c hc => h ⟨i⟩ n c hn hc⟩

variable {f : Forest}

/-! ## What can be read -/

theorem isEmpty_columns_of_describes {t : Table} {d : TableDocument} (h : Describes t d) :
    d.columns.isEmpty = t.columns.isEmpty := by
  have hcolumns : d.columns = t.columns.map ColumnDocument.ofColumn := congrArg TableDocument.columns h
  rw [hcolumns, List.isEmpty_map]

/-- **The reader has room for a forest iff it has for the stored form.** -/
theorem readable_iff_shallow (hlinked : f.Linked) {ds : List TableDocument}
    (h : f.Represents Describes 0 f.roots ds) : f.Readable ↔ Shallow TreeDocument.levels ds := by
  have hlevels : TreeDocument.levels = 63 := rfl
  have hmax : Json.maxDepth = 127 := rfl
  constructor
  · -- positions lead to tables that are not too deep
    intro hreadable path d hd
    obtain ⟨id, n, depth, hn, hdescribes, hdepth, hlength⟩ := h.follow hlinked (depth_of_mem_roots hlinked) hd
    have hroom := hreadable id n depth hn hdepth
    rw [isEmpty_columns_of_describes hdescribes]
    split at hroom <;> simp only [*, if_true, if_false, Bool.false_eq_true] <;> omega
  · -- to every table lead as many positions as it is deep
    intro hshallow id n depth hn hdepth
    obtain ⟨path, d, deeper, hd, hdescribes, -, hdeeper, hlength⟩ := h.exists_follow hlinked hn
    obtain rfl := Except.ok.inj (hdepth.symm.trans hdeeper)
    have hroom := hshallow path d hd
    rw [isEmpty_columns_of_describes hdescribes] at hroom
    split at hroom <;> simp only [*, if_true, if_false, Bool.false_eq_true] <;> omega

theorem regular_iff_hasRegularMoments (hlinked : f.Linked) {ds : List TableDocument}
    (h : f.Represents Describes 0 f.roots ds) : Regular ds ↔ f.HasRegularMoments := by
  refine (h.everywhere_iff hlinked (Q := fun t => ∀ c, t.creation = some c → c.created.IsRegular) ?_).trans
    ⟨fun hall id n c hn => hall id n hn c, fun hall id n hn c => hall id n c hn⟩
  intro t d hdescribes
  have hcreation : d.creation = t.creation := congrArg TableDocument.creation hdescribes
  rw [hcreation]

theorem Represents.shaped (hsound : f.Sound) {ds : List TableDocument} (h : f.Represents Describes 0 f.roots ds) :
    f.Represents (fun t d => t.Shape ∧ Describes t d) 0 f.roots ds :=
  h.imp fun _ _ _ hn hdescribes => ⟨hsound.shapes (tableOf?_of_node? hn), hdescribes⟩

/-- The stored form of a sound forest can be built: tables of the right shape are those whose stored forms can be
read. -/
theorem toForest_of_describes (hsound : f.Sound) {ds : List TableDocument}
    (h : f.Represents Describes 0 f.roots ds) :
    ∃ g, TreeDocument.toForest ⟨documentVersion, ds⟩ = .ok g ∧ g.Linked ∧ g.Represents Builds 0 g.roots ds ∧
      g.walkAll = handles 0 g.nodes.length := by
  have hversion : ¬documentVersion < documentVersion := by decide
  refine TreeDocument.toForest_represents hversion ((h.shaped hsound).forall_inOrder ?_)
  rintro t d ⟨hshape, hdescribes⟩
  obtain ⟨u, hu, -⟩ := toTable_ofTable hshape hdescribes
  exact ⟨u, hu⟩

/-- What is built from the stored form of a sound forest is that forest under other handles. -/
theorem exists_renaming_of_describes (hsound : f.Sound) {ds : List TableDocument}
    (h : f.Represents Describes 0 f.roots ds) :
    ∃ g rename, TreeDocument.toForest ⟨documentVersion, ds⟩ = .ok g ∧ f.Renaming g rename := by
  obtain ⟨g, hg, hlinked, hbuilds, -⟩ := toForest_of_describes hsound h
  obtain ⟨rename, hrename⟩ := exists_renaming hsound.linked hlinked (h.shaped hsound) hbuilds
    fun {t u d} has hbuilt => by
      obtain ⟨v, hv, hcontent⟩ := toTable_ofTable has.1 has.2
      obtain rfl := Except.ok.inj (hbuilt.symm.trans hv)
      exact hcontent
  exact ⟨g, rename, hg, hrename⟩

/-! ## The round trip -/

/-- A sound forest has a document. -/
theorem exists_document (hlinked : f.Linked) :
    ∃ d, DocumentFile.ofForest f = .ok d ∧ d.document.version = documentVersion ∧
      f.Represents Describes 0 f.roots d.document.tables := by
  obtain ⟨ds, hds, hrepresents⟩ := TreeDocument.ofForest_represents hlinked
  refine ⟨⟨⟨documentVersion, ds⟩, none⟩, ?_, rfl, hrepresents⟩
  unfold DocumentFile.ofForest
  rw [hds]
  rfl

/-- **What the reader has room for comes back**, up to the handles. -/
theorem ofBytes_of_readable (hsound : f.Sound) (hreadable : f.Readable) (hmoments : f.HasRegularMoments)
    (hpaths : f.HasTextPaths) (style : Json.Style) {d : DocumentFile} (hversion : d.document.version = documentVersion)
    (hd : f.Represents Describes 0 f.roots d.document.tables) :
    ∃ e g rename, DocumentFile.ofBytes (d.document.bytes style) = .ok e ∧ e.document.toForest = .ok g ∧
      f.Renaming g rename := by
  have hshallow := (readable_iff_shallow hsound.linked hd).1 hreadable
  have hregular := (regular_iff_hasRegularMoments hsound.linked hd).2 hmoments
  have htexts := (hasTextPaths_iff_of_describes hsound.linked hd).2 hpaths
  obtain ⟨g, rename, hg, hrename⟩ := exists_renaming_of_describes hsound hd
  rw [← hversion] at hg
  refine ⟨⟨d.document, none⟩, g, rename, ?_, hg, hrename⟩
  unfold DocumentFile.ofBytes
  rw [TreeDocument.read?_bytes style hregular htexts hshallow]

/-- **What the reader has no room for is refused.** -/
theorem ofBytes_of_not_readable (hlinked : f.Linked) (h : ¬f.Readable) (hpaths : f.HasTextPaths)
    (style : Json.Style) {d : DocumentFile} (hd : f.Represents Describes 0 f.roots d.document.tables) :
    DocumentFile.ofBytes (d.document.bytes style) = .error .json := by
  have hdeep := mt (readable_iff_shallow hlinked hd).2 h
  have htexts := (hasTextPaths_iff_of_describes hlinked hd).2 hpaths
  unfold DocumentFile.ofBytes
  rw [TreeDocument.read?_bytes_of_not_shallow style htexts hdeep]

/-- **A forest that has been built is written, if its paths are texts, and what is written is read back exactly if
the reader has room for it**: then the same forest comes back, up to the handles, and otherwise the reader refuses the
document. -/
theorem round_trip_iff_readable (history : List ForestOperation) (style : Json.Style)
    (hmoments : (Forest.empty.run history).HasRegularMoments) (hpaths : (Forest.empty.run history).HasTextPaths) :
    ∃ d bs, DocumentFile.ofForest (Forest.empty.run history) = .ok d ∧ d.encode style = .ok bs ∧
      ((Forest.empty.run history).Readable →
        ∃ e g rename, DocumentFile.ofBytes bs = .ok e ∧ e.document.toForest = .ok g ∧
          (Forest.empty.run history).Renaming g rename) ∧
      (¬(Forest.empty.run history).Readable → DocumentFile.ofBytes bs = .error .json) := by
  have hsound := sound_empty.run history
  obtain ⟨d, hd, hversion, hrepresents⟩ := exists_document hsound.linked
  have htexts := (hasTextPaths_iff_of_describes hsound.linked hrepresents).2 hpaths
  refine ⟨d, _, hd, DocumentFile.encode_of_textPaths htexts style, fun hreadable => ?_, fun hdeep => ?_⟩
  · exact ofBytes_of_readable hsound hreadable hmoments hpaths style hversion hrepresents
  · exact ofBytes_of_not_readable hsound.linked hdeep hpaths style hrepresents

def leapSecond : Moment := ⟨⟨2016, 12, 31⟩, 86399, 1500000000, by decide⟩

/-- A root that was made in a leap second, with numbers in a column; a child with a column of links; and a child
of that, which becomes a root. -/
def measured : List ForestOperation :=
  [.insertRoot "scan" [.addColumn (.ofKind "value" .numeric), .addRow, .addRow, .setCellText 0 1 "NaN",
      .setCreation (some ⟨"scan", .ofList [("device", "7")], leapSecond⟩)],
    .insertChild ⟨0⟩ "peaks" [.addColumn (.ofKind "trace" .fileLink), .addRow,
      .setLinkDefaults 0 ⟨some (.ofText "traces"), none, some "txt", 4294967295⟩],
    .insertChild ⟨1⟩ "notes" [.setWorkingDir (some (.ofText "/tmp"))], .detach ⟨2⟩]

theorem round_trip_of_measured :
    (Forest.empty.run measured).HasRegularMoments ∧ (Forest.empty.run measured).HasTextPaths ∧
      (Forest.empty.run measured).Readable ∧ (Forest.empty.run measured).roots = [⟨0⟩, ⟨2⟩] ∧
      ∃ d bs e g rename, DocumentFile.ofForest (Forest.empty.run measured) = .ok d ∧ d.encode .pretty = .ok bs ∧
        DocumentFile.ofBytes bs = .ok e ∧ e.document.toForest = .ok g ∧
        (Forest.empty.run measured).Renaming g rename := by
  have hmoments : (Forest.empty.run measured).HasRegularMoments := by decide +kernel
  have hpaths : (Forest.empty.run measured).HasTextPaths := by decide +kernel
  have hreadable : (Forest.empty.run measured).Readable := by decide +kernel
  obtain ⟨d, bs, hd, hbs, hback, -⟩ := round_trip_iff_readable measured .pretty hmoments hpaths
  obtain ⟨e, g, rename, he, hg, hrename⟩ := hback hreadable
  exact ⟨hmoments, hpaths, hreadable, rfl, d, bs, e, g, rename, hd, hbs, he, hg, hrename⟩

/-- A root and below it one child after the other. -/
def chain (children : Nat) : List ForestOperation :=
  .insertRoot "t" [] :: (List.range children).map fun i => .insertChild ⟨i⟩ "t" []

set_option maxRecDepth 8000 in
/-- **Not all that is written can be read**: a chain of 62 tables below a root is too deep, though no table has so
much as a column. -/
theorem chain_refused :
    ∃ d bs, DocumentFile.ofForest (Forest.empty.run (chain 62)) = .ok d ∧ d.encode .pretty = .ok bs ∧
      DocumentFile.ofBytes bs = .error .json := by
  have hlinked := (sound_empty.run (chain 62)).linked
  have hdepth : (Forest.empty.run (chain 62)).depth ⟨62⟩ = .ok 62 := rfl
  -- the deepest table has no columns, so it takes one level of nesting less
  have hlast : ((Forest.empty.run (chain 62)).node? ⟨62⟩).map (·.table.columns.isEmpty) = some true := rfl
  obtain ⟨n, hn, hempty⟩ := Option.map_eq_some_iff.1 hlast
  -- at the depth of that table there is no room left, not even for a table without columns
  have hdeep : ¬(Forest.empty.run (chain 62)).Readable := by
    intro hreadable
    have hroom := hreadable ⟨62⟩ n 62 hn hdepth
    rw [if_pos hempty] at hroom
    exact absurd hroom (by decide)
  have hpaths : (Forest.empty.run (chain 62)).HasTextPaths := by decide +kernel
  obtain ⟨d, hd, -, hrepresents⟩ := exists_document hlinked
  have htexts := (hasTextPaths_iff_of_describes hlinked hrepresents).2 hpaths
  exact ⟨d, _, hd, DocumentFile.encode_of_textPaths htexts .pretty,
    ofBytes_of_not_readable hlinked hdeep hpaths .pretty hrepresents⟩

end Forest
end TableForest
