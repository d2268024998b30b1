import TableForest.Proofs.Document.RoundTrip

/-!
# Forests taken apart and built anew

A forest without its stored text: the stored form is taken from it and a forest is built from that.  The handles of
the new forest are the numbers from zero on, in the order of a walk, and its tables are the old ones to the last
cell, except that all values that stand for no number count as one.

## The architecture

* **`Table.Reproduces`** compares tables by the values of their cells.  Texts say as much as values do, once both
  tables have their shape: **`reproduces_of_sameContent`**.
* A renaming of handles takes walks to walks (**`Visits.rename`**).
* **`rebuilt_of_history`** puts the two together for every forest that can be built.
-/

namespace TableForest

/-! ## Tables -/

/-- The second table is the first, cell by cell. -/
structure Table.Reproduces (t u : Table) : Prop where
  name : u.name = t.name
  workingDir : u.workingDir = t.workingDir
  creation : u.creation = t.creation
  linkPolicy : u.linkPolicy = t.linkPolicy
  infos : u.infos = t.infos
  rows : u.rows = t.rows
  cells : List.Forall₂ (fun c d => List.Forall₂ Cell.Agrees c.cells d.cells) t.columns u.columns

/-- Cells of one kind and subtype agree if their texts do. -/
theorem Cell.forall₂_agrees {kind : Kind} {subtype : Tag} {cells others : List Cell}
    (hcells : ∀ c ∈ cells, c.kind = kind ∧ c.subtype = subtype)
    (hothers : ∀ c ∈ others, c.kind = kind ∧ c.subtype = subtype)
    (htexts : others.map Cell.text = cells.map Cell.text) : List.Forall₂ Cell.Agrees cells others := by
  induction cells generalizing others with
  | nil =>
    rw [List.map_nil, List.map_eq_nil_iff] at htexts
    rw [htexts]
    exact .nil
  | cons c rest ih =>
    cases others with
    | nil => cases htexts
    | cons d others =>
      rw [List.forall_mem_cons] at hcells hothers
      rw [List.map_cons, List.map_cons, List.cons.injEq] at htexts
      -- cells of one kind and one subtype agree as soon as their texts do
      have hkind : c.kind = d.kind := hcells.1.1.trans hothers.1.1.symm
      have hsubtype : c.subtype = d.subtype := hcells.1.2.trans hothers.1.2.symm
      exact .cons ⟨Value.agrees_of_toText hkind htexts.1.symm, hsubtype⟩ (ih hcells.2 hothers.2 htexts.2)

theorem Column.Fits.forall_cells {rows : Nat} {c : Column} (h : c.Fits rows) :
    ∀ cell ∈ c.cells, cell.kind = c.info.kind ∧ cell.subtype = c.info.subtype :=
  fun cell hcell => ⟨h.kinds cell hcell, h.subtypes cell hcell⟩

theorem Column.forall₂_agrees {rows others : Nat} {columns columns' : List Column}
    (hfits : ∀ c ∈ columns, c.Fits rows) (hfits' : ∀ c ∈ columns', c.Fits others)
    (hinfos : columns'.map Column.info = columns.map Column.info)
    (htexts : columns'.map (·.cells.map Cell.text) = columns.map (·.cells.map Cell.text)) :
    List.Forall₂ (fun c d => List.Forall₂ Cell.Agrees c.cells d.cells) columns columns' := by
  -- the columns are compared pair by pair, as descriptions and as texts
  induction columns generalizing columns' with
  | nil =>
    rw [List.map_nil, List.map_eq_nil_iff] at hinfos
    rw [hinfos]
    exact .nil
  | cons c rest ih =>
    cases columns' with
    | nil => cases hinfos
    | cons d columns' =>
      rw [List.forall_mem_cons] at hfits hfits'
      rw [List.map_cons, List.map_cons, List.cons.injEq] at hinfos htexts
      have hright := hfits'.1.forall_cells
      rw [hinfos.1] at hright
      exact .cons (Cell.forall₂_agrees hfits.1.forall_cells hright htexts.1) (ih hfits.2 hfits'.2 hinfos.2 htexts.2)

/-- **Tables that say the same are the same, cell by cell**, if both have their shape. -/
theorem Table.reproduces_of_sameContent {t u : Table} (ht : t.Shape) (hu : u.Shape) (h : t.SameContent u) :
    t.Reproduces u where
  name := h.name
  workingDir := h.workingDir
  creation := h.creation
  linkPolicy := h.linkPolicy
  infos := h.infos
  rows := h.rows
  cells := Column.forall₂_agrees ht.fits hu.fits h.infos h.texts

namespace TableDocument

theorem shape_of_addColumns {columns : List ColumnDocument} {t u : Table} (ht : t.Shape)
    (h : addColumns t columns = .ok u) : u.Shape := by
  induction columns generalizing t with
  | nil =>
    obtain rfl := Except.ok.inj h
    exact ht
  | cons c rest ih =>
    rw [addColumns] at h
    obtain ⟨cells, -, h⟩ := Except.bind_eq_ok.1 h
    have hadded := ht.addColumnWithCells c.info cells
    split at h
    · rename_i i t' hadd
      rw [hadd] at hadded
      exact ih hadded h
    · cases h

/-- What is read from a stored table has its shape, whatever is stored. -/
theorem shape_of_toTable {d : TableDocument} {t : Table} (h : d.toTable = .ok t) : t.Shape := by
  unfold toTable at h
  refine shape_of_addColumns ?_ h
  have hempty := Table.Shape.empty d.name
  exact ⟨hempty.fits, hempty.rowless⟩

end TableDocument

namespace Forest

variable {f g : Forest}

/-! ## Walks -/

/-- A renaming takes a walk to a walk. -/
theorem Visits.rename {rename : TableId → TableId} (h : f.Renaming g rename) {stack visited : List TableId}
    (hvisits : f.Visits stack visited) : g.Visits (stack.map rename) (visited.map rename) := by
  induction hvisits with
  | nil => exact .nil
  | cons hnode _ ih =>
    obtain ⟨m, hm, -, hchildren, -⟩ := h.tables hnode
    rw [List.map_append, ← hchildren] at ih
    exact .cons hm ih

/-! ## Building anew -/

/-- A forest is another one under the handles from zero on, in the order of a walk. -/
structure Rebuilt (f g : Forest) (rename : TableId → TableId) : Prop where
  /-- Roots, parents and children correspond. -/
  renamed : f.Renaming g rename
  walk : g.walkAll = f.walkAll.map rename
  numbered : g.walkAll = (List.range f.size).map TableId.mk
  /-- No table is left out of the walk. -/
  complete : ∀ id, id ∈ g.walkAll ↔ ∃ n, g.node? id = some n
  tables : ∀ {id n}, f.node? id = some n → ∃ m, g.node? (rename id) = some m ∧ n.table.Reproduces m.table

/-- What is built from the stored form of a sound forest. -/
theorem exists_rebuilt (hsound : f.Sound) {ds : List TableDocument}
    (h : f.Represents TableDocument.Describes 0 f.roots ds) :
    ∃ g rename, TreeDocument.toForest ⟨documentVersion, ds⟩ = .ok g ∧ f.Rebuilt g rename := by
  obtain ⟨g, rename, hg, hrename⟩ := exists_renaming_of_describes hsound h
  obtain ⟨g', hg', hlinked, hbuilds, hwalk⟩ := toForest_of_describes hsound h
  -- the two descriptions of the new forest are of one forest
  obtain rfl := Except.ok.inj (hg.symm.trans hg')
  have hwalks : g.walkAll = f.walkAll.map rename := by
    -- a walk is determined by what it starts from, and the renaming takes walks to walks
    have hvisits := (walkAll_visits hsound.linked).rename hrename
    rw [← hrename.roots] at hvisits
    exact (walkAll_visits hlinked).unique hvisits
  have hlength : g.nodes.length = f.size := by
    have hmet := congrArg List.length (hwalk.symm.trans hwalks)
    simpa [handles, length_walkAll hsound.linked] using hmet
  refine ⟨g, rename, hg, hrename, hwalks, ?_, mem_walkAll hlinked, fun {id n} hn => ?_⟩
  -- every place of the new forest is taken, so its handles are those of the walk
  · rw [hwalk, hlength, handles, List.range_eq_range']
    rfl
  · obtain ⟨m, hm, -, -, hcontent⟩ := hrename.tables hn
    obtain ⟨-, d, -, -, hbuilt, -⟩ := hbuilds.exists_follow hlinked hm
    have hshape := hsound.shapes (tableOf?_of_node? hn)
    exact ⟨m, hm, Table.reproduces_of_sameContent hshape (TableDocument.shape_of_toTable hbuilt) hcontent⟩

/-- **Every forest that can be built has a stored form, and what is built from that is the forest again**, with its
tables numbered from zero on in the order of a walk. -/
theorem rebuilt_of_history (history : List ForestOperation) :
    ∃ d g rename, TreeDocument.ofForest (Forest.empty.run history) = .ok d ∧ d.toForest = .ok g ∧
      (Forest.empty.run history).Rebuilt g rename := by
  have hsound := sound_empty.run history
  obtain ⟨ds, hds, hrepresents⟩ := TreeDocument.ofForest_represents hsound.linked
  obtain ⟨g, rename, hg, hrebuilt⟩ := exists_rebuilt hsound hrepresents
  exact ⟨_, g, rename, hds, hg, hrebuilt⟩

end Forest
end TableForest
