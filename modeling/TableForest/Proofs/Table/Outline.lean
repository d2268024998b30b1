import TableForest.Proofs.Table.Shape

/-!
# What editing cells leaves alone

The outline of a table is all of it but its cells and the counters of its columns.  Every change of cells
keeps the outline, so whatever can be read off the outline of a table before a run of changes holds after it.
-/

namespace TableForest

/-- The description of a column with the counter of its links set back, and no cells. -/
def Column.outline (c : Column) : Column :=
  ⟨{ c.info with link := { c.info.link with counter := 0 } }, []⟩

namespace Table

/-- A table without its cells and with the counters of its columns set back. -/
def outline (t : Table) : Table :=
  { t with columns := t.columns.map Column.outline }

variable {t : Table}

theorem map_modify_of_eq {α β : Type} {f : α → β} {g : α → α} (h : ∀ a, f (g a) = f a)
    (xs : List α) (i : Nat) : (xs.modify i g).map f = xs.map f := by
  refine List.ext_getElem? fun j => ?_
  rw [List.getElem?_map, List.getElem?_map, List.getElem?_modify]
  split
  · cases xs[j]? with
    | none => rfl
    | some a => simp [h a]
  · cases xs[j]? <;> rfl

theorem outline_modifyColumn (index : Nat) {f : Column → Column}
    (hf : ∀ c, (f c).outline = c.outline) : (t.modifyColumn index f).outline = t.outline := by
  unfold outline modifyColumn
  rw [map_modify_of_eq hf]

theorem outline_putCell (column row : Nat) (c : Cell) :
    (t.putCell column row c).outline = t.outline :=
  outline_modifyColumn column fun _ => rfl

theorem outline_setCounter (index : Nat) (counter : UInt32) :
    (t.setCounter index counter).outline = t.outline :=
  outline_modifyColumn index fun _ => rfl

theorem outline_commitCell {ε : Type} (info : ColumnInfo) (column row : Nat)
    (wrap : TableError → ε) (result : Except ε Cell) :
    (t.commitCell info column row wrap result).2.outline = t.outline := by
  unfold commitCell
  split
  · rfl
  · split
    · rfl
    · exact outline_putCell column row _

/-- Changing a cell keeps the outline. -/
theorem outline_updateCell {ε σ : Type} (column row : Nat) (wrap : TableError → ε)
    (edit : CellEdit ε σ) (s : σ) :
    (t.updateCell column row wrap edit s).2.1.outline = t.outline := by
  unfold updateCell
  split
  · rfl
  · rename_i col c _
    exact outline_commitCell col.info column row wrap (edit c s).1

/-- Changing a cell that gets a new link first keeps the outline too. -/
theorem outline_updateLinkedCell {ε σ : Type} (pathExists : Path → Bool) (column row : Nat)
    (wrap : TableError → ε) (edit : CellEdit ε σ) (s : σ) :
    (t.updateLinkedCell pathExists column row wrap edit s).2.1.outline = t.outline := by
  unfold updateLinkedCell
  split
  · rfl
  · rename_i col c _
    split
    · exact outline_updateCell column row wrap edit s
    · split
      · rfl
      · rename_i link counter _
        have hcommit := outline_commitCell (t := t) col.info column row wrap
          (edit (linkCell col.info link) s).1
        dsimp only
        split
        · rename_i hleft
          rw [hleft] at hcommit
          exact hcommit
        · -- counters are no part of the outline
          rename_i hleft
          rw [hleft] at hcommit
          exact (outline_setCounter column counter).trans hcommit

/-! ## Reading an outline -/

/-- Tables of one outline have their columns' descriptions in common, up to the counters. -/
theorem info_of_outline_eq {t' : Table} (h : t'.outline = t.outline) {i : Nat} {c' : Column}
    (hc' : t'.columns[i]? = some c') : ∃ c, t.columns[i]? = some c ∧ c'.outline = c.outline := by
  have hmap : t'.columns.map Column.outline = t.columns.map Column.outline :=
    congrArg Table.columns h
  have hget := congrArg (fun columns : List Column => columns[i]?) hmap
  simp only [List.getElem?_map, hc', Option.map_some] at hget
  obtain ⟨c, hc, heq⟩ := Option.map_eq_some_iff.1 hget.symm
  exact ⟨c, hc, heq.symm⟩

theorem length_columns_of_outline_eq {t' : Table} (h : t'.outline = t.outline) :
    t'.columns.length = t.columns.length := by
  have hmap : t'.columns.map Column.outline = t.columns.map Column.outline :=
    congrArg Table.columns h
  simpa using congrArg List.length hmap

end Table
/-- A description can be read off the outline of its column, up to the counter. -/
theorem Column.info_of_outline_eq {c c' : Column} (h : c'.outline = c.outline) :
    c'.info = { c.info with link := { c.info.link with counter := c'.info.link.counter } } := by
  have hinfo : { c'.info with link := { c'.info.link with counter := 0 } } =
      { c.info with link := { c.info.link with counter := 0 } } := congrArg Column.info h
  obtain ⟨⟨name, kind, subtype, ⟨dir, stem, extension, counter⟩, extra⟩, cells⟩ := c'
  simp only [ColumnInfo.mk.injEq, LinkDefaults.mk.injEq, and_true] at hinfo ⊢
  exact hinfo

end TableForest
