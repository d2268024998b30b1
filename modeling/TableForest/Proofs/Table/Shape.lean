import Mathlib.Data.List.Forall2
import TableForest.Proofs.Except
import TableForest.Table.Operation

/-!
# Tables keep their shape

`Table.Shape` is an invariant of all operations on tables, whatever their arguments are and whether they
succeed or fail.

## The architecture

* **`getElem?_modifyColumn`** is all that is known of a change of one column: it is seen at its index only.
* **`Column.Fits`** is kept by everything that is done to one column: new descriptions, new cells, a cell
  more, a cell less.
* **`Shape.requiring`** discharges the checks of an operation: only the table after the last check counts.
* **`Shape.perform`** goes through the operations, and **`shape_of_history`** through a history of them.
-/

namespace TableForest

/-! ## What the checks say -/

namespace Table

/-- A cell passes the check of its column iff it has the column's kind and subtype. -/
theorem checkCell_eq_ok {info : ColumnInfo} {row : Option Nat} {c : Cell} :
    checkCell info row c = .ok () ↔ c.kind = info.kind ∧ c.subtype = info.subtype := by
  unfold checkCell
  split
  · rename_i hkind
    simp [hkind]
  · rename_i hkind
    split
    · rename_i hsub
      simp [hsub]
    · rename_i hsub
      simp only [true_iff]
      exact ⟨Decidable.not_not.1 hkind, Decidable.not_not.1 hsub⟩

/-- All cells pass the check of their column iff each of them does. -/
theorem checkCells_eq_ok {info : ColumnInfo} {row : Nat} {cells : List Cell} :
    checkCells info row cells = .ok () ↔
      ∀ c ∈ cells, c.kind = info.kind ∧ c.subtype = info.subtype := by
  induction cells generalizing row with
  | nil => simp [checkCells]
  | cons c rest ih =>
    rw [List.forall_mem_cons, ← @ih (row + 1), ← @checkCell_eq_ok info (some row)]
    rw [checkCells]
    cases checkCell info (some row) c with
    | ok => simp [bind, Except.bind]
    | error e => simp [bind, Except.bind]

theorem checkName_eq_ok {name : String} : checkName name = .ok () ↔ name ≠ "" := by
  unfold checkName
  split
  · rename_i h
    simpa using h
  · rename_i h
    simpa using h

/-- A failure of a cell is one of its table, and a success stays one. -/
theorem ofCell_eq_ok {answer : Except CellError Cell} {c : Cell} : ofCell answer = .ok c ↔ answer = .ok c := by
  cases answer with
  | ok d => exact ⟨fun h => Except.ok.inj h ▸ rfl, fun h => Except.ok.inj h ▸ rfl⟩
  | error e => exact ⟨nofun, nofun⟩

theorem column_eq_ok {t : Table} {index : Nat} {c : Column} :
    t.column index = .ok c ↔ t.columns[index]? = some c := by
  unfold column
  cases t.columns[index]? <;> simp

theorem checkRow_eq_ok {t : Table} {index : Nat} : t.checkRow index = .ok () ↔ index < t.rows := by
  unfold checkRow
  by_cases h : index < t.rows
  · simp [h]
  · simp [h]

/-- What stands at a place of a table: a column of it and the cell of that column in a row. -/
theorem place_eq_ok {t : Table} {column row : Nat} {col : Column} {c : Cell}
    (h : t.place column row = .ok (col, c)) :
    t.columns[column]? = some col ∧ row < t.rows ∧ col.cells[row]? = some c := by
  unfold place at h
  obtain ⟨found, hcol, h⟩ := Except.bind_eq_ok.1 h
  obtain ⟨u, hrow, h⟩ := Except.bind_eq_ok.1 h
  split at h
  · rename_i cell hcell
    obtain ⟨rfl, rfl⟩ := Prod.mk.inj (Except.ok.inj h)
    exact ⟨column_eq_ok.1 hcol, checkRow_eq_ok.1 hrow, hcell⟩
  · cases h

/-- Conversion reads the text of each cell, and succeeds if all of them can be read. -/
theorem convertCells_eq_ok {name : String} {kind : Kind} {subtype : Tag} {cells : List Cell} :
    ∀ {row : Nat} {converted : List Cell},
      convertCells name kind subtype row cells = .ok converted ↔
        List.Forall₂ (fun old new => Cell.parse kind subtype old.text = .ok new) cells converted := by
  induction cells with
  | nil =>
    intro row converted
    rw [convertCells, List.forall₂_nil_left_iff]
    exact ⟨fun h => (Except.ok.inj h).symm, fun h => h ▸ rfl⟩
  | cons c rest ih =>
    intro row converted
    rw [convertCells, List.forall₂_cons_left_iff]
    -- a cell that fails makes the whole fail, and there is no list for it
    cases hparse : Cell.parse kind subtype c.text with
    | error e => simp
    | ok first =>
      simp only [Except.map_eq_ok, ih, Except.ok.injEq]
      constructor
      · rintro ⟨others, hothers, rfl⟩
        exact ⟨first, others, rfl, hothers, rfl⟩
      · rintro ⟨_, others, rfl, hothers, rfl⟩
        exact ⟨others, hothers, rfl⟩

/-- Reading gives as many cells as there are texts, all of the kind and the subtype asked for. -/
theorem fits_of_parsed {α : Type} {textOf : α → String} {kind : Kind} {subtype : Tag} {sources : List α}
    {cells : List Cell}
    (h : List.Forall₂ (fun source cell => Cell.parse kind subtype (textOf source) = .ok cell) sources cells) :
    cells.length = sources.length ∧ ∀ c ∈ cells, c.kind = kind ∧ c.subtype = subtype := by
  refine ⟨h.length_eq.symm, ?_⟩
  induction h with
  | nil => exact fun _ hmem => nomatch hmem
  | cons hparse _ ih =>
    refine List.forall_mem_cons.2 ⟨?_, ih⟩
    unfold Cell.parse at hparse
    obtain ⟨v, hvalue, rfl⟩ := Except.map_eq_ok.1 hparse
    exact ⟨Value.kind_of_parse hvalue, rfl⟩

/-! ## What a change of one column does -/

/-- A change of one column is seen at its index only. -/
theorem getElem?_modifyColumn (t : Table) (index : Nat) (f : Column → Column) (i : Nat) :
    (t.modifyColumn index f).columns[i]? = if i = index then (t.columns[i]?).map f else t.columns[i]? := by
  unfold modifyColumn
  simp only [List.getElem?_modify]
  by_cases h : i = index
  · simp only [if_pos h, if_pos h.symm]
    rfl
  · simp only [if_neg h, if_neg (Ne.symm h), id_map']

theorem modifyColumn_eq_set {t : Table} {index : Nat} {c : Column} (hc : t.columns[index]? = some c)
    (f : Column → Column) : t.modifyColumn index f = { t with columns := t.columns.set index (f c) } := by
  unfold modifyColumn
  rw [List.modify_eq_set_getElem?, hc]
  rfl

end Table

/-! ## One column -/

namespace Column.Fits

variable {rows : Nat} {c : Column}

theorem blank {info : ColumnInfo} (hname : info.name ≠ "") (rows : Nat) :
    Column.Fits rows ⟨info, List.replicate rows info.blank⟩ where
  named := hname
  length := List.length_replicate
  kinds := by
    intro cell hcell
    rw [List.eq_of_mem_replicate hcell]
    exact Kind.kind_defaultValue info.kind
  subtypes := by
    intro cell hcell
    rw [List.eq_of_mem_replicate hcell]
    rfl

/-- A column fits as long as its cells do if the new description has a name, the kind and the subtype. -/
theorem redescribe (h : c.Fits rows) {info : ColumnInfo} (hname : info.name ≠ "")
    (hkind : info.kind = c.info.kind) (hsub : info.subtype = c.info.subtype) :
    Column.Fits rows { c with info := info } where
  named := hname
  length := h.length
  kinds cell hcell := (h.kinds cell hcell).trans hkind.symm
  subtypes cell hcell := (h.subtypes cell hcell).trans hsub.symm

theorem retag (h : c.Fits rows) (subtype : Tag) :
    Column.Fits rows
      ⟨{ c.info with subtype := subtype }, c.cells.map ({ · with subtype := subtype })⟩ where
  named := h.named
  length := (List.length_map _).trans h.length
  kinds := by
    intro cell hcell
    obtain ⟨old, hold, rfl⟩ := List.mem_map.1 hcell
    exact h.kinds old hold
  subtypes := by
    intro cell hcell
    obtain ⟨old, hold, rfl⟩ := List.mem_map.1 hcell
    rfl

/-- A cell of the column's kind and subtype may take the place of any other. -/
theorem setCell (h : c.Fits rows) (row : Nat) {cell : Cell} (hkind : cell.kind = c.info.kind)
    (hsub : cell.subtype = c.info.subtype) :
    Column.Fits rows { c with cells := c.cells.set row cell } where
  named := h.named
  length := List.length_set.trans h.length
  kinds := by
    intro d hd
    rcases List.mem_or_eq_of_mem_set hd with hd | rfl
    · exact h.kinds d hd
    · exact hkind
  subtypes := by
    intro d hd
    rcases List.mem_or_eq_of_mem_set hd with hd | rfl
    · exact h.subtypes d hd
    · exact hsub

/-- A cell of the column's kind and subtype may be added for one row more. -/
theorem addCell (h : c.Fits rows) {cell : Cell} (hkind : cell.kind = c.info.kind)
    (hsub : cell.subtype = c.info.subtype) :
    Column.Fits (rows + 1) { c with cells := c.cells ++ [cell] } where
  named := h.named
  length := by rw [List.length_append, h.length]; rfl
  kinds := by
    intro d hd
    rcases List.mem_append.1 hd with hd | hd
    · exact h.kinds d hd
    · rw [List.mem_singleton.1 hd]; exact hkind
  subtypes := by
    intro d hd
    rcases List.mem_append.1 hd with hd | hd
    · exact h.subtypes d hd
    · rw [List.mem_singleton.1 hd]; exact hsub

/-- With the cell of a row goes the row. -/
theorem eraseCell (h : c.Fits rows) {index : Nat} (hindex : index < rows) :
    Column.Fits (rows - 1) { c with cells := c.cells.eraseIdx index } where
  named := h.named
  length := by
    have hlt : index < c.cells.length := by rw [h.length]; exact hindex
    rw [List.length_eraseIdx_of_lt hlt, h.length]
  kinds d hd := h.kinds d (List.mem_of_mem_eraseIdx hd)
  subtypes d hd := h.subtypes d (List.mem_of_mem_eraseIdx hd)

end Column.Fits

namespace Table.Shape

variable {t : Table}

/-! ## Parts of operations -/

/-- A check that fails leaves the table; one that succeeds leaves it to what comes next. -/
theorem requiring {α β : Type} {check : Except TableError β} {next : β → Edited α} (h : t.Shape)
    (hnext : ∀ b, check = .ok b → (next b).2.Shape) : (t.requiring check next).2.Shape := by
  unfold Table.requiring
  cases check with
  | ok b => exact hnext b rfl
  | error e => exact h

theorem fits_of_getElem? (h : t.Shape) {index : Nat} {c : Column}
    (hc : t.columns[index]? = some c) : c.Fits t.rows :=
  h.fits c (List.mem_of_getElem? hc)

/-- Changing one column keeps the shape if the column that comes out fits. -/
theorem modifyColumn (h : t.Shape) {index : Nat} {f : Column → Column}
    (hf : ∀ c, t.columns[index]? = some c → (f c).Fits t.rows) : (t.modifyColumn index f).Shape where
  fits := by
    intro c hc
    -- the column is the changed one, or it stands at another index
    obtain ⟨i, hi⟩ := List.mem_iff_getElem?.1 hc
    rw [getElem?_modifyColumn] at hi
    split at hi
    · rename_i hindex
      subst hindex
      obtain ⟨old, hold, rfl⟩ := Option.map_eq_some_iff.1 hi
      exact hf old hold
    · exact h.fits_of_getElem? hi
  rowless := by
    intro hnil
    -- a change of a column does not take it away
    refine h.rowless ?_
    have hlen : (t.columns.modify index f).length = 0 := by
      rw [show t.columns.modify index f = [] from hnil]; rfl
    rw [List.length_modify] at hlen
    exact List.eq_nil_of_length_eq_zero hlen

/-- Changing what a column says beside its kind and subtype keeps the shape if it keeps a name. -/
theorem modifyInfo (h : t.Shape) {index : Nat} {f : ColumnInfo → ColumnInfo}
    (hf : ∀ info : ColumnInfo, info.name ≠ "" →
      (f info).name ≠ "" ∧ (f info).kind = info.kind ∧ (f info).subtype = info.subtype) :
    (t.modifyInfo index f).Shape := by
  refine h.modifyColumn fun c hc => ?_
  have hfits := h.fits_of_getElem? hc
  obtain ⟨hname, hkind, hsub⟩ := hf c.info hfits.named
  exact hfits.redescribe hname hkind hsub

theorem putCell (h : t.Shape) {column : Nat} (row : Nat) {col : Column} {c : Cell}
    (hcol : t.columns[column]? = some col) (hkind : c.kind = col.info.kind)
    (hsub : c.subtype = col.info.subtype) : (t.putCell column row c).Shape := by
  refine h.modifyColumn fun found hfound => ?_
  obtain rfl : col = found := by rw [hcol] at hfound; exact Option.some.inj hfound
  exact (h.fits_of_getElem? hcol).setCell row hkind hsub

/-- A column that fits may stand after others that do. -/
theorem push (hfits : ∀ d ∈ t.columns, d.Fits t.rows) {c : Column} (hc : c.Fits t.rows) :
    (t.push c).2.Shape where
  fits := by
    intro d hd
    rcases List.mem_append.1 hd with hd | hd
    · exact hfits d hd
    · rw [List.mem_singleton.1 hd]; exact hc
  rowless := by
    intro hnil
    exact absurd hnil (by simp [Table.push])

/-- The rows of a table may change with all its columns, if it has one. -/
theorem ofColumns {rows : Nat} {columns : List Column} (hfits : ∀ c ∈ columns, c.Fits rows)
    (hnil : columns = [] → rows = 0) : Table.Shape { t with columns := columns, rows := rows } :=
  ⟨hfits, hnil⟩

/-! ## Operations -/

theorem addColumn (h : t.Shape) (info : ColumnInfo) : (t.addColumn info).2.Shape :=
  h.requiring fun _ hname => push h.fits (.blank (checkName_eq_ok.1 hname) t.rows)

/-- The first column brings the rows with it, every later one has to have a cell for each. -/
theorem addColumnWithCells (h : t.Shape) (info : ColumnInfo) (cells : List Cell) :
    (t.addColumnWithCells info cells).2.Shape := by
  refine h.requiring fun _ hname => ?_
  split
  · exact h
  · rename_i hcount
    refine h.requiring fun _ hcells => ?_
    have hall := checkCells_eq_ok.1 hcells
    have hfits : Column.Fits cells.length ⟨info, cells⟩ :=
      ⟨checkName_eq_ok.1 hname, rfl, fun c hc => (hall c hc).1, fun c hc => (hall c hc).2⟩
    split
    · rename_i hempty
      have hnil : t.columns = [] := List.isEmpty_iff.1 hempty
      -- the first column: there is no other that would have to agree with its rows
      refine push (t := { t with rows := cells.length }) (fun c hc => ?_) hfits
      exact absurd (show c ∈ t.columns from hc) (by simp [hnil])
    · rename_i hnonempty
      have hlen : cells.length = t.rows := by simpa [hnonempty] using hcount
      exact push h.fits (hlen ▸ hfits)

/-- A table that loses its last column loses its rows. -/
theorem removeColumn (h : t.Shape) (index : Nat) : (t.removeColumn index).2.Shape := by
  refine h.requiring fun c _ => ?_
  refine Table.Shape.ofColumns (fun d hd => ?_) (fun hnil => ?_)
  · -- a column is left, so the rows stay
    have hmem : d ∈ t.columns := List.mem_of_mem_eraseIdx hd
    rw [if_neg (by rw [List.isEmpty_iff]; exact List.ne_nil_of_mem hd)]
    exact h.fits d hmem
  · rw [if_pos (List.isEmpty_iff.2 hnil)]

theorem removeEachColumn (indices : List Nat) : ∀ {t : Table}, t.Shape →
    (t.removeEachColumn indices).2.Shape := by
  induction indices with
  | nil => exact fun h => h
  | cons index rest ih =>
    intro t h
    have hone := h.removeColumn index
    unfold Table.removeEachColumn
    rcases hremoved : t.removeColumn index with ⟨e | info, left⟩
    · -- what was removed before a failure stays removed
      rw [hremoved] at hone
      exact hone
    · rw [hremoved] at hone
      have hrest := ih hone
      rcases hothers : left.removeEachColumn rest with ⟨e | infos, last⟩
      · simpa [hothers] using hrest
      · simpa [hothers] using hrest

theorem removeColumns (h : t.Shape) (indices : List Nat) : (t.removeColumns indices).2.Shape :=
  h.requiring fun _ _ => removeEachColumn (descending indices) h

theorem renameColumn (h : t.Shape) (index : Nat) (name : String) :
    (t.renameColumn index name).2.Shape :=
  h.requiring fun _ _ => h.requiring fun _ hname =>
    h.modifyInfo (f := ({ · with name := name })) fun _ _ => ⟨checkName_eq_ok.1 hname, rfl, rfl⟩

theorem setColumnSubtype (h : t.Shape) (index : Nat) (subtype : Tag) :
    (t.setColumnSubtype index subtype).2.Shape :=
  h.requiring fun _ _ => h.modifyColumn fun _ hc => (h.fits_of_getElem? hc).retag subtype

theorem setLinkDefaults (h : t.Shape) (index : Nat) (link : LinkDefaults) :
    (t.setLinkDefaults index link).2.Shape :=
  h.requiring fun _ _ =>
    h.modifyInfo (f := ({ · with link := link })) fun _ hname => ⟨hname, rfl, rfl⟩

theorem setColumnExtra (h : t.Shape) (index : Nat) (key value : String) :
    (t.setColumnExtra index key value).2.Shape :=
  h.requiring fun _ _ =>
    h.modifyInfo (f := fun info => { info with extra := info.extra.insert key value })
      fun _ hname => ⟨hname, rfl, rfl⟩

theorem convertColumn (h : t.Shape) (index : Nat) (kind : Kind) (subtype : Tag) :
    (t.convertColumn index kind subtype).2.Shape := by
  refine h.requiring fun c hc => h.requiring fun cells hcells => ?_
  obtain ⟨hlen, hall⟩ := fits_of_parsed (convertCells_eq_ok.1 hcells)
  refine h.modifyColumn fun found hfound => ?_
  -- what is changed at the index is the column whose cells were converted
  obtain rfl : c = found := by
    rw [column_eq_ok.1 hc] at hfound
    exact Option.some.inj hfound
  have hfits := h.fits_of_getElem? hfound
  exact ⟨hfits.named, hlen.trans hfits.length, fun d hd => (hall d hd).1, fun d hd => (hall d hd).2⟩

theorem addRow (h : t.Shape) : t.addRow.2.Shape := by
  refine h.requiring fun _ hcolumns => ofColumns (fun d hd => ?_) (fun hnil => ?_)
  · obtain ⟨c, hc, rfl⟩ := List.mem_map.1 hd
    exact (h.fits c hc).addCell (Kind.kind_defaultValue c.info.kind) rfl
  · -- without columns the check of the columns would have failed
    have hempty : t.columns.isEmpty := by simpa using List.map_eq_nil_iff.1 hnil
    simp [checkColumns, hempty] at hcolumns

theorem addRowWithCells (h : t.Shape) (cells : List Cell) : (t.addRowWithCells cells).2.Shape := by
  refine h.requiring fun _ hcolumns => ?_
  split
  · exact h
  · rename_i hcount
    have hlen : cells.length = t.columns.length := Decidable.not_not.1 hcount
    refine h.requiring fun _ hchecked => ofColumns (fun d hd => ?_) (fun hnil => ?_)
    · -- every column grows by the cell that was checked against it
      rw [← List.map_uncurry_zip_eq_zipWith] at hd
      obtain ⟨⟨c, cell⟩, hpair, rfl⟩ := List.mem_map.1 hd
      have hcell := checkCell_eq_ok.1 (Except.forM_eq_ok hchecked (c, cell) hpair)
      exact (h.fits c (List.of_mem_zip hpair).1).addCell hcell.1 hcell.2
    · have hzero := congrArg List.length hnil
      rw [List.length_zipWith, hlen, Nat.min_self, List.length_nil] at hzero
      simp [checkColumns, List.isEmpty_iff.2 (List.eq_nil_of_length_eq_zero hzero)] at hcolumns

theorem removeRow (h : t.Shape) (index : Nat) : (t.removeRow index).2.Shape := by
  refine h.requiring fun _ hrow => ofColumns (fun d hd => ?_) (fun hnil => ?_)
  · obtain ⟨c, hc, rfl⟩ := List.mem_map.1 hd
    refine (h.fits c hc).eraseCell (Decidable.byContradiction fun hout => ?_)
    simp [checkRow, hout] at hrow
  · have hrows := h.rowless (List.map_eq_nil_iff.1 hnil)
    omega

theorem removeEachRow (indices : List Nat) : ∀ {t : Table}, t.Shape →
    (t.removeEachRow indices).2.Shape := by
  induction indices with
  | nil => exact fun h => h
  | cons index rest ih =>
    intro t h
    have hone := h.removeRow index
    unfold Table.removeEachRow
    rcases hremoved : t.removeRow index with ⟨e | _, left⟩
    · rw [hremoved] at hone
      exact hone
    · rw [hremoved] at hone
      exact ih hone

theorem removeRows (h : t.Shape) (indices : List Nat) : (t.removeRows indices).2.Shape :=
  h.requiring fun _ _ => removeEachRow (descending indices) h

/-! ### Cells -/

theorem setCellValue (h : t.Shape) (column row : Nat) (v : Value) :
    (t.setCellValue column row v).2.Shape := by
  refine h.requiring fun ⟨col, c⟩ hplace => ?_
  obtain ⟨hcol, -, hcell⟩ := place_eq_ok hplace
  have hsub := (h.fits_of_getElem? hcol).subtypes c (List.mem_of_getElem? hcell)
  by_cases hkind : v.kind ≠ col.info.kind
  · simpa only [if_pos hkind] using h
  · simp only [if_neg hkind]
    refine h.requiring fun c' hset => ?_
    rw [ofCell_eq_ok] at hset
    unfold Cell.setValue at hset
    split at hset
    · obtain rfl := Except.ok.inj hset
      exact h.putCell row hcol (Decidable.not_not.1 hkind) hsub
    · cases hset

theorem setCellText (h : t.Shape) (column row : Nat) (s : String) :
    (t.setCellText column row s).2.Shape := by
  refine h.requiring fun ⟨col, c⟩ hplace => h.requiring fun c' hset => ?_
  obtain ⟨hcol, -, hcell⟩ := place_eq_ok hplace
  have hfits := h.fits_of_getElem? hcol
  have hkind := hfits.kinds c (List.mem_of_getElem? hcell)
  have hsub := hfits.subtypes c (List.mem_of_getElem? hcell)
  -- a text is read in the kind of the cell, which is that of the column
  rw [ofCell_eq_ok] at hset
  unfold Cell.setText at hset
  cases hvalue : Value.parse c.kind s with
  | error e =>
    rw [hvalue] at hset
    cases hset
  | ok v =>
    rw [hvalue] at hset
    obtain rfl := Except.ok.inj hset
    exact h.putCell row hcol ((Value.kind_of_parse hvalue).trans hkind) hsub

/-- Whatever a change makes of a cell, only what fits the column is committed. -/
theorem commitCell {ε : Type} (h : t.Shape) {column : Nat} (row : Nat) {col : Column}
    (hcol : t.columns[column]? = some col) (wrap : TableError → ε) (result : Except ε Cell) :
    (t.commitCell col.info column row wrap result).2.Shape := by
  unfold Table.commitCell
  cases result with
  | error e => exact h
  | ok c =>
    dsimp only
    split
    · exact h
    · rename_i hcheck
      obtain ⟨hkind, hsub⟩ := checkCell_eq_ok.1 hcheck
      exact h.putCell row hcol hkind hsub

theorem updateCell {ε σ : Type} (h : t.Shape) (column row : Nat) (wrap : TableError → ε)
    (edit : CellEdit ε σ) (s : σ) : (t.updateCell column row wrap edit s).2.1.Shape := by
  unfold Table.updateCell
  split
  · exact h
  · rename_i col c hplace
    exact h.commitCell row (place_eq_ok hplace).1 wrap (edit c s).1

/-- The counter of a column is no part of the shape. -/
theorem setCounter (h : t.Shape) (index : Nat) (counter : UInt32) :
    (t.setCounter index counter).Shape :=
  h.modifyInfo fun _ hname => ⟨hname, rfl, rfl⟩

/-- New links are made for file links only. -/
theorem kind_of_nextLink {pathExists : Path → Bool} {info : ColumnInfo} {link : Path × UInt32}
    (h : t.nextLink pathExists info = .ok link) : info.kind = .fileLink := by
  refine Decidable.byContradiction fun hkind => ?_
  simp [nextLink, hkind, linkError] at h

theorem makeDefaultLink (h : t.Shape) (pathExists : Path → Bool) (column row : Nat) :
    (t.makeDefaultLink pathExists column row).2.Shape := by
  refine h.requiring fun ⟨col, c⟩ hplace => h.requiring fun ⟨link, counter⟩ hlink => ?_
  have hput := h.putCell row (c := linkCell col.info link) (place_eq_ok hplace).1
    (kind_of_nextLink hlink).symm rfl
  exact hput.setCounter column counter

theorem updateLinkedCell {ε σ : Type} (h : t.Shape) (pathExists : Path → Bool) (column row : Nat)
    (wrap : TableError → ε) (edit : CellEdit ε σ) (s : σ) :
    (t.updateLinkedCell pathExists column row wrap edit s).2.1.Shape := by
  unfold Table.updateLinkedCell
  split
  · exact h
  · rename_i col c hplace
    split
    · exact h.updateCell column row wrap edit s
    · split
      · exact h
      -- a link that was made is put into the cell before the change, and both are committed together
      · rename_i link counter _
        have hcommit := h.commitCell row (place_eq_ok hplace).1 wrap
          (edit (linkCell col.info link) s).1
        dsimp only
        split
        · rename_i e left hleft
          rw [hleft] at hcommit
          exact hcommit
        · -- the counter moves on once the cell is committed
          rename_i left hleft
          rw [hleft] at hcommit
          exact hcommit.setCounter column counter

/-! ## Histories -/

/-- One operation keeps the shape, whether it succeeds or fails. -/
theorem perform (h : t.Shape) (op : TableOperation) : (t.perform op).2.Shape := by
  cases op with
  | addColumn info => exact h.addColumn info
  | addColumnWithCells info cells => exact h.addColumnWithCells info cells
  | removeColumn index => exact h.removeColumn index
  | removeColumns indices => exact h.removeColumns indices
  | renameColumn index name => exact h.renameColumn index name
  | setColumnSubtype index subtype => exact h.setColumnSubtype index subtype
  | setLinkDefaults index link => exact h.setLinkDefaults index link
  | setColumnExtra index key value => exact h.setColumnExtra index key value
  | convertColumn index kind subtype => exact h.convertColumn index kind subtype
  | addRow => exact h.addRow
  | addRowWithCells cells => exact h.addRowWithCells cells
  | removeRow index => exact h.removeRow index
  | removeRows indices => exact h.removeRows indices
  | setCellValue column row v => exact h.setCellValue column row v
  | setCellText column row s => exact h.setCellText column row s
  | makeDefaultLink pathExists column row => exact h.makeDefaultLink pathExists column row
  | updateCell column row wrap edit s => exact h.updateCell column row wrap edit s
  | updateLinkedCell pathExists column row wrap edit s =>
    exact h.updateLinkedCell pathExists column row wrap edit s
  -- what a table is called and where it comes from is no part of its shape
  | setName name => exact ⟨h.fits, h.rowless⟩
  | setWorkingDir dir => exact ⟨h.fits, h.rowless⟩
  | setCreation creation => exact ⟨h.fits, h.rowless⟩
  | setLinkPolicy policy => exact ⟨h.fits, h.rowless⟩

theorem empty (name : String) : (Table.empty name).Shape where
  fits := by
    intro c hc
    exact absurd hc List.not_mem_nil
  rowless := by
    intro _
    rfl

theorem run (h : t.Shape) (history : List TableOperation) : (t.run history).Shape := by
  unfold Table.run
  induction history generalizing t with
  | nil => exact h
  | cons op rest ih => exact ih (h.perform op)

end Table.Shape

/-- **Every table has its shape.**  After any history of a new table, of which any operation may fail, there
are as many lists of cells as descriptions of columns, each has a cell for each row, every cell has the kind
and the subtype of its column, no column lacks a name, and without columns there are no rows. -/
theorem Table.shape_of_history (name : String) (history : List TableOperation) :
    let t := (Table.empty name).run history
    t.Shape ∧
      t.infos.length = (t.columns.map Column.cells).length ∧
      (∀ cells ∈ t.columns.map Column.cells, cells.length = t.rows) ∧
      (∀ c ∈ t.columns, ∀ cell ∈ c.cells, cell.kind = c.info.kind ∧ cell.subtype = c.info.subtype) ∧
      (∀ info ∈ t.infos, info.name ≠ "") ∧
      (t.infos = [] → t.rows = 0) := by
  have h : ((Table.empty name).run history).Shape := (Table.Shape.empty name).run history
  refine ⟨h, ?_, ?_, ?_, ?_, ?_⟩
  · simp only [Table.infos, List.length_map]
  · intro cells hcells
    obtain ⟨c, hc, rfl⟩ := List.mem_map.1 hcells
    exact (h.fits c hc).length
  · intro c hc cell hcell
    exact ⟨(h.fits c hc).kinds cell hcell, (h.fits c hc).subtypes cell hcell⟩
  · intro info hinfo
    obtain ⟨c, hc, rfl⟩ := List.mem_map.1 hinfo
    exact (h.fits c hc).named
  · intro hnil
    exact h.rowless (List.map_eq_nil_iff.1 hnil)

end TableForest
