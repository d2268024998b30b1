import TableForest.Proofs.Table.Shape

/-!
# Cells in their places

Which cells a change of one cell touches: the one in its place, and no other.
-/

namespace TableForest.Table

variable {t : Table}

/-- A place holds what the lists hold there, if the row counts. -/
theorem place_of_getElem? {column row : Nat} {col : Column} {c : Cell}
    (hcol : t.columns[column]? = some col) (hrow : row < t.rows) (hcell : col.cells[row]? = some c) :
    t.place column row = .ok (col, c) := by
  unfold place
  rw [column_eq_ok.2 hcol, checkRow_eq_ok.2 hrow]
  simp only [bind, Except.bind, hcell]
  rfl

/-- In a table of good shape there is a cell for each row, of the kind of its column. -/
theorem Shape.place (h : t.Shape) {column row : Nat} {col : Column}
    (hcol : t.columns[column]? = some col) (hrow : row < t.rows) :
    ∃ c, t.place column row = .ok (col, c) ∧ c.kind = col.info.kind := by
  have hfits := h.fits col (List.mem_of_getElem? hcol)
  have hlt : row < col.cells.length := hfits.length ▸ hrow
  have hcell : col.cells[row]? = some col.cells[row] := List.getElem?_eq_getElem hlt
  exact ⟨_, place_of_getElem? hcol hrow hcell, hfits.kinds _ (List.mem_of_getElem? hcell)⟩

/-- The cell at a place, and the column that it belongs to. -/
theorem cell_eq_ok {column row : Nat} {c : Cell} :
    t.cell column row = .ok c ↔
      ∃ col, t.columns[column]? = some col ∧ row < t.rows ∧ col.cells[row]? = some c := by
  constructor
  · intro h
    unfold cell at h
    obtain ⟨⟨col, c'⟩, hplace, rfl⟩ := Except.map_eq_ok.1 h
    exact ⟨col, place_eq_ok hplace⟩
  · rintro ⟨col, hcol, hrow, hcell⟩
    unfold cell
    rw [place_of_getElem? hcol hrow hcell]
    rfl

theorem getElem?_putCell (column row : Nat) (c : Cell) (i : Nat) :
    (t.putCell column row c).columns[i]? =
      if i = column then (t.columns[i]?).map fun col => { col with cells := col.cells.set row c }
      else t.columns[i]? :=
  getElem?_modifyColumn t column _ i

theorem getElem?_putCell_self {column row : Nat} {col : Column} (hcol : t.columns[column]? = some col) (c : Cell) :
    (t.putCell column row c).columns[column]? = some { col with cells := col.cells.set row c } := by
  rw [getElem?_putCell, if_pos rfl, hcol]
  rfl

theorem getElem?_setCounter (column : Nat) (counter : UInt32) (i : Nat) :
    (t.setCounter column counter).columns[i]? =
      if i = column then
        (t.columns[i]?).map fun col =>
          { col with info := { col.info with link := { col.info.link with counter := counter } } }
      else t.columns[i]? :=
  getElem?_modifyColumn t column _ i

/-- A cell that is put into a place is there. -/
theorem cell_putCell_self {column row : Nat} {c₀ : Cell} (h : t.cell column row = .ok c₀) (c : Cell) :
    (t.putCell column row c).cell column row = .ok c := by
  obtain ⟨col, hcol, hrow, hcell⟩ := cell_eq_ok.1 h
  refine cell_eq_ok.2 ⟨{ col with cells := col.cells.set row c }, ?_, hrow, ?_⟩
  · exact getElem?_putCell_self hcol c
  · obtain ⟨hlt, -⟩ := List.getElem?_eq_some_iff.1 hcell
    exact List.getElem?_set_self hlt

/-- Every other cell stays. -/
theorem cell_putCell_of_ne {column row i r : Nat} {c' : Cell} (h : t.cell i r = .ok c') (c : Cell)
    (hne : i ≠ column ∨ r ≠ row) : (t.putCell column row c).cell i r = .ok c' := by
  obtain ⟨col, hcol, hrow, hcell⟩ := cell_eq_ok.1 h
  by_cases hi : i = column
  · -- in the same column it is another row
    have hr : row ≠ r := by
      intro heq
      rcases hne with hne | hne
      · exact hne hi
      · exact hne heq.symm
    refine cell_eq_ok.2 ⟨{ col with cells := col.cells.set row c }, ?_, hrow, ?_⟩
    · rw [getElem?_putCell, if_pos hi, hcol]
      rfl
    · rw [List.getElem?_set_ne hr]
      exact hcell
  · -- another column is left alone
    refine cell_eq_ok.2 ⟨col, ?_, hrow, hcell⟩
    rw [getElem?_putCell, if_neg hi]
    exact hcol

/-- What storing an edited cell can do: nothing, or the cell is put into its place. -/
theorem commitCell_cases {ε : Type} (t : Table) (info : ColumnInfo) (column row : Nat) (wrap : TableError → ε)
    (result : Except ε Cell) :
    (∃ e, t.commitCell info column row wrap result = (.error e, t)) ∨
      ∃ c, result = .ok c ∧ c.kind = info.kind ∧
        t.commitCell info column row wrap result = (.ok (), t.putCell column row c) := by
  unfold commitCell
  cases result with
  | error e => exact .inl ⟨e, rfl⟩
  | ok c =>
    simp only
    cases hcheck : checkCell info (some row) c with
    | error e => exact .inl ⟨wrap e, rfl⟩
    | ok => exact .inr ⟨c, rfl, (checkCell_eq_ok.1 hcheck).1, rfl⟩

/-- Putting a cell into its place changes no description of a column. -/
theorem infos_putCell (column row : Nat) (c : Cell) : (t.putCell column row c).infos = t.infos := by
  refine List.ext_getElem? fun i => ?_
  unfold infos
  rw [List.getElem?_map, List.getElem?_map, getElem?_putCell]
  split
  · cases t.columns[i]? <;> rfl
  · rfl

end TableForest.Table
