import TableForest.Proofs.Document.Acceptance

/-!
# Documents that are written again

What is built from a document and stored again is the document in its normal form: what need not be said is left
out, and every text is the one in which its value is written.  Nothing else changes, however deep tables stand in
each other.

## The architecture

* **`TreeDocument.normal`** changes a document where it is not normal, and **`normal_normal`** shows that it does so
  once.
* A table that is built from a stored one has the normal form of that as its own stored form
  (**`TableDocument.ofTable_of_toTable`**), and so have all tables below it (**`describes_of_builds`**).  A forest has
  no other stored form.
* What is acceptable stays so (**`Acceptable.normal`**), so the normal form is built in its turn:
  **`TreeDocument.ofForest_of_toForest`**.
-/

namespace TableForest

/-- The text in which a value is written stays as it is. -/
theorem Value.canonicalText_canonicalText (kind : Kind) (s : String) :
    canonicalText kind (canonicalText kind s) = canonicalText kind s := by
  cases hread : read? kind s with
  | none =>
    have hsame : canonicalText kind s = s := by
      unfold canonicalText
      rw [hread]
    rw [hsame, hsame]
  | some v =>
    have htext : canonicalText kind s = v.toText := by
      unfold canonicalText
      rw [hread]
    rw [htext, ← kind_of_read? hread, canonicalText_toText]

/-! ## Columns -/

namespace ColumnDocument

theorem normal_normal (c : ColumnDocument) : c.normal.normal = c.normal := by
  simp [normal, Value.canonicalText_canonicalText]

theorem Spells.canonicalText {c : ColumnDocument} {s : String} (h : c.Spells s) :
    c.Spells (Value.canonicalText c.kind s) := by
  obtain ⟨v, hv⟩ := h
  obtain ⟨w, hread, -⟩ := Value.read?_toText v
  rw [Value.kind_of_parse hv] at hread
  refine ⟨w, ?_⟩
  unfold Value.parse
  rw [Value.canonicalText_of_parse hv, hread]

theorem Acceptable.normal {rows : Nat} {c : ColumnDocument} (h : c.Acceptable rows) : c.normal.Acceptable rows where
  spelled := List.forall_mem_map.2 fun s hs => (h.spelled s hs).canonicalText
  named := h.named
  length := (List.length_map _).trans h.length

end ColumnDocument

/-! ## Tables -/

namespace TableDocument

mutual

/-- A stored table as it is written, with all below it. -/
def normal : TableDocument → TableDocument
  | ⟨name, workingDir, creation, linkPolicy, columns, children⟩ =>
    ⟨name, workingDir, creation, linkPolicy.filter (· ≠ .standard), columns.map ColumnDocument.normal,
      allNormal children⟩

/-- Stored tables as they are written, with all below them. -/
def allNormal : List TableDocument → List TableDocument
  | [] => []
  | d :: rest => d.normal :: allNormal rest

end

theorem normal_eq (d : TableDocument) : d.normal =
    { d with
      linkPolicy := d.linkPolicy.filter (· ≠ .standard)
      columns := d.columns.map ColumnDocument.normal
      children := allNormal d.children } := by
  cases d
  rfl

theorem allNormal_allNormal (ds : List TableDocument) : allNormal (allNormal ds) = allNormal ds := by
  induction ds using tables_induction with
  | nil => rfl
  | cons d rest ihbelow ihrest =>
    rw [allNormal, allNormal, ihrest, normal_eq, normal_eq d]
    simp [ihbelow, ColumnDocument.normal_normal, Function.comp_def]

theorem allInOrder_allNormal (ds : List TableDocument) : allInOrder (allNormal ds) = (allInOrder ds).map normal := by
  induction ds using tables_induction with
  | nil => rfl
  | cons d rest ihbelow ihrest =>
    have hchildren : d.normal.children = allNormal d.children := by rw [normal_eq]
    rw [allNormal, allInOrder_cons, allInOrder_cons, hchildren, ihbelow, ihrest, List.map_cons, List.map_append]

theorem Acceptable.normal {d : TableDocument} (h : d.Acceptable) : d.normal.Acceptable := by
  have hcolumns : ∀ c ∈ d.normal.columns, c.Acceptable d.rows := by
    rw [normal_eq]
    exact List.forall_mem_map.2 fun c hc => (h c hc).normal
  exact acceptable_of_forall hcolumns

/-- **The table that is built from a stored one is stored in the normal form of that.** -/
theorem ofTable_of_toTable {d : TableDocument} {t : Table} (h : d.toTable = .ok t) :
    ofTable t = { d.normal with children := [] } := by
  obtain ⟨columns, hbuilt, hread⟩ := toTable_of_acceptable (exists_toTable_iff.1 ⟨t, h⟩)
  obtain rfl := Except.ok.inj (h.symm.trans hbuilt)
  rw [normal_eq]
  unfold ofTable
  rw [map_ofColumn_of_readAs hread, ite_none_eq_filter]

/-- **The normal form of stored tables describes what is built from them.** -/
theorem describes_of_builds {f : Forest} {oldest : Nat} {ids : List TableId} {ds : List TableDocument}
    (h : f.Represents Builds oldest ids ds) : f.Represents Describes oldest ids (allNormal ds) := by
  induction h with
  | nil => exact .nil
  | cons hnew hnode hbuilt _ _ ihbelow ihrest =>
    refine .cons hnew hnode (ofTable_of_toTable hbuilt).symm ?_ ihrest
    rw [normal_eq]
    exact ihbelow

end TableDocument

/-! ## Documents -/

namespace TreeDocument

open TableDocument

/-- A document as it is written: in the last version that can be read, with all its tables in normal form. -/
def normal (d : TreeDocument) : TreeDocument :=
  ⟨documentVersion, allNormal d.tables⟩

theorem normal_normal (d : TreeDocument) : d.normal.normal = d.normal := by
  unfold normal
  rw [allNormal_allNormal]

theorem Acceptable.normal {d : TreeDocument} (h : d.Acceptable) : d.normal.Acceptable where
  version := UInt32.le_refl documentVersion
  tables := by
    show ∀ t ∈ allInOrder (allNormal d.tables), t.Acceptable
    rw [allInOrder_allNormal]
    exact List.forall_mem_map.2 fun t ht => (h.tables t ht).normal

/-- What is built from a document is stored as its normal form. -/
theorem ofForest_eq_normal {d : TreeDocument} {f : Forest} (h : d.toForest = .ok f) :
    TreeDocument.ofForest f = .ok d.normal := by
  obtain ⟨hlinked, hbuilds⟩ := represents_of_toForest h
  obtain ⟨ds, hds, hdescribes⟩ := ofForest_represents hlinked
  rw [hds, hdescribes.unique_of_describes (describes_of_builds hbuilds)]
  rfl

/-- **What is built from a document is stored as its normal form**, and to build it again and store it again changes
nothing more. -/
theorem ofForest_of_toForest {d : TreeDocument} {f : Forest} (h : d.toForest = .ok f) :
    TreeDocument.ofForest f = .ok d.normal ∧
      ∃ g, d.normal.toForest = .ok g ∧ TreeDocument.ofForest g = .ok d.normal := by
  obtain ⟨g, hg⟩ := exists_toForest_iff.2 (exists_toForest_iff.1 ⟨f, h⟩).normal
  refine ⟨ofForest_eq_normal h, g, hg, ?_⟩
  rw [ofForest_eq_normal hg, normal_normal]

/-- A document of an old version, with settings that say nothing, and with texts in which no value is written. -/
def loose : TreeDocument :=
  ⟨0, [⟨"scan", none, none, some .standard, [
      ⟨"valid", .logical, ⟨"logical"⟩, some .none, .empty, ["T", "0"]⟩,
      ⟨"trace", .fileLink, ⟨"file"⟩, some { LinkDefaults.none with extension := some ".txt" }, .empty, ["", "a"]⟩], [
    ⟨"peaks", none, none, some ⟨4, "_", 10⟩, [
      ⟨"height", .numeric, ⟨"numeric"⟩, none, .ofList [("unit", "mm")], ["1e2", "+.5", "nan"]⟩], []⟩]⟩]⟩

/-- The same document as it is written. -/
def tidy : TreeDocument :=
  ⟨1, [⟨"scan", none, none, none, [
      ⟨"valid", .logical, ⟨"logical"⟩, none, .empty, ["true", "false"]⟩,
      ⟨"trace", .fileLink, ⟨"file"⟩, some { LinkDefaults.none with extension := some ".txt" }, .empty, ["", "a"]⟩], [
    ⟨"peaks", none, none, some ⟨4, "_", 10⟩, [
      ⟨"height", .numeric, ⟨"numeric"⟩, none, .ofList [("unit", "mm")], ["100", "0.5", "NaN"]⟩], []⟩]⟩]⟩

theorem loose_stored_as_tidy :
    ∃ f g, loose.toForest = .ok f ∧ TreeDocument.ofForest f = .ok tidy ∧ tidy.toForest = .ok g ∧
      TreeDocument.ofForest g = .ok tidy := by
  have hnormal : loose.normal = tidy := by
    -- the texts that are stored are the canonical ones
    have hlogical : ["T", "0"].map (Value.canonicalText .logical) = ["true", "false"] := by decide +kernel
    have hnumeric : ["1e2", "+.5", "nan"].map (Value.canonicalText .numeric) = ["100", "0.5", "NaN"] := by
      decide +kernel
    show TreeDocument.mk 1 [⟨"scan", none, none, none, [
        ⟨"valid", .logical, ⟨"logical"⟩, none, .empty, ["T", "0"].map (Value.canonicalText .logical)⟩, _], [
      ⟨"peaks", none, none, _, [⟨"height", .numeric, _, none, _,
        ["1e2", "+.5", "nan"].map (Value.canonicalText .numeric)⟩], []⟩]⟩] = tidy
    rw [hlogical, hnumeric]
    rfl
  obtain ⟨f, hf⟩ := exists_toForest_iff.2 (show loose.Acceptable by decide +kernel)
  obtain ⟨hstored, g, hg, hagain⟩ := ofForest_of_toForest hf
  rw [hnormal] at hstored hg hagain
  exact ⟨f, g, hf, hstored, hg, hagain⟩

end TreeDocument
end TableForest
