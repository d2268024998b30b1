import Mathlib.Data.List.Sort
import TableForest.Proofs.Table.Atomic
import TableForest.Proofs.Table.Place

/-!
# Batches of removals

A batch removes one row or column after the other, and each removal moves what stands behind it.  The batch goes from
the highest index down, so no index that is left is moved: in the end stands what stood at the other indices before.

## The architecture

* **`remaining`** are the indices that stay, and **`pick`** is what a list holds at some indices.
  **`foldl_eraseIdx`** says of any list that a falling batch leaves what it holds at the remaining indices.
* **`removeEachRow_eq`** and **`removeEachColumn_eq`** run the loops on a table, along their lists of indices.
* **`RemovesRows`** and **`RemovesColumns`** are all that a batch does, and **`removals_leave_the_rest`** is the result.
-/

namespace TableForest

/-! ## Lists -/

/-- The indices below a number that are not among those that go, in their order. -/
def remaining (count : Nat) (gone : List Nat) : List Nat :=
  (List.range count).filter (· ∉ gone)

/-- What a list holds at some indices. -/
def pick {α : Type} (indices : List Nat) (xs : List α) : List α :=
  indices.filterMap (xs[·]?)

section Lists

variable {α : Type} {count index : Nat} {gone others : List Nat}

theorem mem_remaining {i : Nat} : i ∈ remaining count gone ↔ i < count ∧ i ∉ gone := by
  simp [remaining]

/-- Only the members of a batch count, not their order nor how often they are named. -/
theorem remaining_congr (h : ∀ i, i ∈ others ↔ i ∈ gone) : remaining count others = remaining count gone := by
  unfold remaining
  apply List.filter_congr
  intro i _
  simp only [h i]

/-- From an index on that is above all that go, nothing goes. -/
theorem remaining_eq_append (h : ∀ i ∈ gone, i < index) (hle : index ≤ count) :
    remaining count gone = remaining index gone ++ List.range' index (count - index) := by
  have hrange : List.range count = List.range index ++ List.range' index (count - index) := by
    have happend := List.range'_append_1 (s := 0) (m := index) (n := count - index)
    rw [Nat.zero_add, Nat.add_sub_of_le hle] at happend
    rw [List.range_eq_range', List.range_eq_range', happend]
  have hstays : ∀ i ∈ List.range' index (count - index), decide (i ∉ gone) = true := by
    intro i hi
    rw [List.mem_range'_1] at hi
    exact decide_eq_true fun hgone => absurd (h i hgone) (by omega)
  unfold remaining
  rw [hrange, List.filter_append, List.filter_eq_self.2 hstays]

/-- The highest index that goes, and what remains below it. -/
theorem remaining_cons (h : ∀ i ∈ gone, i < index) (hlt : index < count) :
    remaining count (index :: gone) = remaining index gone ++ List.range' (index + 1) (count - (index + 1)) := by
  have hbelow : ∀ i ∈ index :: gone, i < index + 1 := by
    intro i hi
    rcases List.mem_cons.1 hi with rfl | hi
    · omega
    · have := h i hi
      omega
  -- behind the index nothing has been removed yet, and the index itself is
  have hfront : remaining (index + 1) (index :: gone) = remaining index gone := by
    unfold remaining
    rw [List.range_succ, List.filter_append, List.filter_singleton]
    simp only [List.mem_cons, true_or, not_true_eq_false, decide_false, cond_false, List.append_nil]
    apply List.filter_congr
    intro i hi
    have hne : i ≠ index := Nat.ne_of_lt (List.mem_range.1 hi)
    simp [hne]
  rw [remaining_eq_append hbelow hlt, hfront]

theorem length_remaining (hnodup : gone.Nodup) (h : ∀ i ∈ gone, i < count) :
    (remaining count gone).length = count - gone.length := by
  have hgone : ((List.range count).filter (· ∈ gone)).Perm gone := by
    rw [List.perm_ext_iff_of_nodup (List.nodup_range.filter _) hnodup]
    intro i
    simp only [List.mem_filter, List.mem_range, decide_eq_true_eq]
    exact ⟨And.right, fun hi => ⟨h i hi, hi⟩⟩
  have hsplit := List.length_eq_length_filter_add (l := List.range count) (· ∈ gone)
  rw [List.length_range, hgone.length_eq] at hsplit
  have hrest : (remaining count gone).length = ((List.range count).filter fun i => !decide (i ∈ gone)).length := by
    simp only [remaining, decide_not]
  omega

theorem pick_append (left right : List Nat) (xs : List α) : pick (left ++ right) xs = pick left xs ++ pick right xs :=
  List.filterMap_append

/-- All indices from one on give the end of the list. -/
theorem pick_range' (xs : List α) : ∀ {start size : Nat}, start + size = xs.length →
    pick (List.range' start size) xs = xs.drop start
  | start, 0, h => by
    rw [List.drop_eq_nil_of_le (show xs.length ≤ start by omega)]
    rfl
  | start, size + 1, h => by
    have hlt : start < xs.length := by omega
    have hrest : pick (List.range' (start + 1) size) xs = xs.drop (start + 1) := pick_range' xs (by omega)
    unfold pick at hrest ⊢
    rw [List.range'_succ, List.filterMap_cons_some (List.getElem?_eq_getElem hlt), hrest,
      ← List.drop_eq_getElem_cons hlt]

/-- Below an index the list is the same without what stands there. -/
theorem pick_eraseIdx {indices : List Nat} (h : ∀ i ∈ indices, i < index) (xs : List α) :
    pick indices (xs.eraseIdx index) = pick indices xs := by
  unfold pick
  apply List.filterMap_congr
  intro i hi
  exact List.getElem?_eraseIdx_of_lt (h i hi)

/-- **A falling batch leaves what stands at the remaining indices.**  By induction along the batch: what is removed
first stands above all that is removed later, so the later indices are right before and after. -/
theorem foldl_eraseIdx (hfalling : gone.Pairwise (· > ·)) : ∀ {xs : List α}, (∀ i ∈ gone, i < xs.length) →
    gone.foldl List.eraseIdx xs = pick (remaining xs.length gone) xs := by
  induction gone with
  | nil =>
    intro xs _
    have hall : remaining xs.length [] = List.range' 0 xs.length := by
      simp [remaining, List.range_eq_range']
    rw [hall, pick_range' xs (by omega)]
    rfl
  | cons index rest ih =>
    intro xs hin
    obtain ⟨hlower, hrest⟩ := List.pairwise_cons.1 hfalling
    have hindex : index < xs.length := hin index List.mem_cons_self
    have hlength : (xs.eraseIdx index).length = xs.length - 1 := List.length_eraseIdx_of_lt hindex
    have hbelow : ∀ i ∈ remaining index rest, i < index := fun i hi => (mem_remaining.1 hi).1
    rw [List.foldl_cons, ih hrest fun i hi => by
      have := hlower i hi
      omega]
    rw [remaining_eq_append hlower (show index ≤ (xs.eraseIdx index).length by omega), remaining_cons hlower hindex,
      pick_append, pick_append, pick_eraseIdx hbelow, pick_range' _ (by omega), pick_range' _ (by omega)]
    -- behind the index both lists go on alike
    have htake : (xs.take index).length = index := List.length_take_of_le (by omega)
    rw [List.eraseIdx_eq_take_drop_succ, List.drop_left' htake]

/-- What is picked at indices of a list stands there in their order. -/
theorem getElem?_pick {indices : List Nat} {xs : List α} (h : ∀ i ∈ indices, i < xs.length) (k : Nat) :
    (pick indices xs)[k]? = (indices[k]?).bind (xs[·]?) := by
  induction indices generalizing k with
  | nil => rfl
  | cons i rest ih =>
    rw [List.forall_mem_cons] at h
    unfold pick at ih ⊢
    rw [List.filterMap_cons_some (List.getElem?_eq_getElem h.1)]
    cases k with
    | zero => simp [List.getElem?_eq_getElem h.1]
    | succ k => exact ih h.2 k

end Lists

namespace Table

variable {t : Table} {indices : List Nat}

/-- The table with only some of its rows. -/
def pickRows (t : Table) (rows : List Nat) : Table :=
  { t with
    columns := t.columns.map fun c => { c with cells := pick rows c.cells }
    rows := rows.length }

/-- The table with only some of its columns. -/
def pickColumns (t : Table) (columns : List Nat) : Table :=
  t.withColumns (pick columns t.columns)

/-! ## The loops -/

/-- The rows of a falling batch go from every column alike. -/
theorem removeEachRow_eq (hfalling : indices.Pairwise (· > ·)) : ∀ {t : Table}, (∀ i ∈ indices, i < t.rows) →
    t.removeEachRow indices = (.ok (), { t with
      columns := t.columns.map fun c => { c with cells := indices.foldl List.eraseIdx c.cells }
      rows := t.rows - indices.length }) := by
  induction indices with
  | nil =>
    intro t _
    simp [removeEachRow]
  | cons index rest ih =>
    intro t hin
    obtain ⟨hlower, hrest⟩ := List.pairwise_cons.1 hfalling
    have hindex : index < t.rows := hin index List.mem_cons_self
    -- the rows of the rest lie in front of the removed one, so they are where they were
    rw [removeEachRow, removeRow, checkRow_eq_ok.2 hindex]
    refine (ih hrest fun i hi => ?_).trans ?_
    · have := hlower i hi
      show i < t.rows - 1
      omega
    · simp [Function.comp_def, Nat.sub_sub, Nat.add_comm 1]

theorem withColumns_self (hrowless : t.columns = [] → t.rows = 0) : t.withColumns t.columns = t := by
  have hrows : (if t.columns.isEmpty then 0 else t.rows) = t.rows := by
    split
    · rename_i hempty
      exact (hrowless (List.isEmpty_iff.1 hempty)).symm
    · rfl
  unfold withColumns
  rw [hrows]

/-- Rows that are gone do not come back, if there are no columns that could bring them. -/
theorem withColumns_withColumns {columns others : List Column} (h : columns = [] → others = []) :
    (t.withColumns columns).withColumns others = t.withColumns others := by
  cases others with
  | nil => rfl
  | cons c rest =>
    cases columns with
    | nil => cases h rfl
    | cons d others => rfl

/-- The columns of a falling batch go with their cells, and with the last of the table go the rows. -/
theorem removeEachColumn_eq (hfalling : indices.Pairwise (· > ·)) : ∀ {t : Table},
    (∀ i ∈ indices, i < t.columns.length) → (t.columns = [] → t.rows = 0) →
    ∃ infos, infos.map some = indices.map (t.infos[·]?) ∧
      t.removeEachColumn indices = (.ok infos, t.withColumns (indices.foldl List.eraseIdx t.columns)) := by
  induction indices with
  | nil =>
    intro t _ hrowless
    refine ⟨[], rfl, ?_⟩
    show (_, t) = (_, t.withColumns t.columns)
    rw [withColumns_self hrowless]
  | cons index rest ih =>
    intro t hin hrowless
    obtain ⟨hlower, hrest⟩ := List.pairwise_cons.1 hfalling
    have hindex : index < t.columns.length := hin index List.mem_cons_self
    let left := t.withColumns (t.columns.eraseIdx index)
    have hlength : left.columns.length = t.columns.length - 1 := length_withColumns_eraseIdx hindex
    have hin' : ∀ i ∈ rest, i < left.columns.length := by
      intro i hi
      have := hlower i hi
      omega
    obtain ⟨infos, hinfos, hremoved⟩ := ih hrest hin' fun hnil => if_pos (List.isEmpty_iff.2 hnil)
    refine ⟨t.columns[index].info :: infos, ?_, ?_⟩
    · -- the descriptions below the index are still where they were
      have hsame : rest.map (left.infos[·]?) = rest.map (t.infos[·]?) := by
        apply List.map_congr_left
        intro i hi
        show ((t.columns.eraseIdx index).map Column.info)[i]? = (t.columns.map Column.info)[i]?
        rw [List.getElem?_map, List.getElem?_map, List.getElem?_eraseIdx_of_lt (hlower i hi)]
      have hinfo : t.infos[index]? = some t.columns[index].info := by
        simp [Table.infos, List.getElem?_eq_getElem hindex]
      rw [List.map_cons, List.map_cons, hinfos, hsame, hinfo]
    · have hnil : t.columns.eraseIdx index = [] → rest.foldl List.eraseIdx (t.columns.eraseIdx index) = [] := by
        intro hempty
        have hnone : rest = [] := by
          refine List.eq_nil_iff_forall_not_mem.2 fun i hi => ?_
          have hi := hin' i hi
          rw [show left.columns = [] from hempty] at hi
          exact absurd hi (Nat.not_lt_zero _)
        rw [hnone, hempty]
        rfl
      rw [removeEachColumn, removeColumn_eq hindex]
      dsimp only
      rw [hremoved, List.foldl_cons, ← withColumns_withColumns hnil]
      rfl

/-! ## Batches -/

theorem forM_checkRow_eq_ok : indices.forM t.checkRow = .ok () ↔ ∀ i ∈ indices, i < t.rows :=
  ⟨fun h i hi => checkRow_eq_ok.1 (Except.forM_eq_ok h i hi),
    fun h => Except.forM_of_forall fun i hi => checkRow_eq_ok.2 (h i hi)⟩

theorem forM_column_eq_ok :
    (indices.forM fun i => (t.column i).map fun _ => ()) = .ok () ↔ ∀ i ∈ indices, i < t.columns.length := by
  have hcheck : ∀ i, ((t.column i).map fun _ => ()) = .ok () ↔ i < t.columns.length := by
    intro i
    unfold column
    by_cases hi : i < t.columns.length
    · simp [hi, Except.map]
    · simp [hi, Except.map]
  exact ⟨fun h i hi => (hcheck i).1 (Except.forM_eq_ok h i hi),
    fun h => Except.forM_of_forall fun i hi => (hcheck i).2 (h i hi)⟩

/-- A batch of rows that are all there leaves the other rows. -/
theorem removeRows_of_forall (h : t.Shape) (hin : ∀ i ∈ indices, i < t.rows) :
    t.removeRows indices = (.ok (), t.pickRows (remaining t.rows indices)) := by
  have hfalling := pairwise_descending indices
  have hin' : ∀ i ∈ descending indices, i < t.rows := fun i hi => hin i (mem_descending.1 hi)
  have hsame : remaining t.rows (descending indices) = remaining t.rows indices :=
    remaining_congr fun _ => mem_descending
  have hcells : (t.columns.map fun c => { c with cells := (descending indices).foldl List.eraseIdx c.cells }) =
      t.columns.map fun c => { c with cells := pick (remaining t.rows indices) c.cells } := by
    apply List.map_congr_left
    intro c hc
    -- a column has a cell for each row
    have hlength := (h.fits c hc).length
    rw [foldl_eraseIdx hfalling (by rw [hlength]; exact hin'), hlength, hsame]
  have hrows : t.rows - (descending indices).length = (remaining t.rows indices).length := by
    rw [← hsame, length_remaining (hfalling.imp fun hgt => Ne.symm (Nat.ne_of_lt hgt)) hin']
  rw [removeRows, forM_checkRow_eq_ok.2 hin]
  refine (removeEachRow_eq hfalling hin').trans ?_
  rw [hcells, hrows]
  rfl

/-- A batch of columns that are all there leaves the other columns, and gives the descriptions of those that go from
the highest index down. -/
theorem removeColumns_of_forall (h : t.Shape) (hin : ∀ i ∈ indices, i < t.columns.length) :
    ∃ infos, infos.map some = (descending indices).map (t.infos[·]?) ∧
      t.removeColumns indices = (.ok infos, t.pickColumns (remaining t.columns.length indices)) := by
  have hfalling := pairwise_descending indices
  have hin' : ∀ i ∈ descending indices, i < t.columns.length := fun i hi => hin i (mem_descending.1 hi)
  have hsame : remaining t.columns.length (descending indices) = remaining t.columns.length indices :=
    remaining_congr fun _ => mem_descending
  obtain ⟨infos, hinfos, hremoved⟩ := removeEachColumn_eq hfalling hin' h.rowless
  refine ⟨infos, hinfos, ?_⟩
  rw [removeColumns, forM_column_eq_ok.2 hin]
  refine hremoved.trans ?_
  rw [foldl_eraseIdx hfalling hin', hsame]
  rfl

theorem isOk_removeRows_iff (h : t.Shape) : (t.removeRows indices).1.isOk = true ↔ ∀ i ∈ indices, i < t.rows := by
  constructor
  · intro hok
    unfold removeRows requiring at hok
    split at hok
    · rename_i hchecked
      exact forM_checkRow_eq_ok.1 hchecked
    · cases hok
  · intro hin
    rw [removeRows_of_forall h hin]
    rfl

theorem isOk_removeColumns_iff (h : t.Shape) :
    (t.removeColumns indices).1.isOk = true ↔ ∀ i ∈ indices, i < t.columns.length := by
  constructor
  · intro hok
    unfold removeColumns requiring at hok
    split at hok
    · rename_i hchecked
      exact forM_column_eq_ok.1 hchecked
    · cases hok
  · intro hin
    obtain ⟨infos, -, hremoved⟩ := removeColumns_of_forall h hin
    rw [hremoved]
    rfl

/-- All columns keep the cells of the same rows. -/
theorem cell_pickRows {rows : List Nat} (h : t.Shape) (hrows : ∀ r ∈ rows, r < t.rows) {k row : Nat}
    (hk : rows[k]? = some row) (column : Nat) : (t.pickRows rows).cell column k = t.cell column row := by
  -- both cells are there or both are missing, since the picked rows are in range
  have hklt : k < rows.length := (List.getElem?_eq_some_iff.1 hk).1
  have hrow : row < t.rows := hrows row (List.mem_of_getElem? hk)
  cases hcolumn : t.columns[column]? with
  | none =>
    have hnone : (t.pickRows rows).columns[column]? = none := by
      simp [pickRows, hcolumn]
    have hlength : (t.pickRows rows).columns.length = t.columns.length := List.length_map _
    unfold cell place Table.column
    rw [hcolumn, hnone, hlength]
    rfl
  | some c =>
    have hfits := h.fits_of_getElem? hcolumn
    have hin : ∀ r ∈ rows, r < c.cells.length := by
      rw [hfits.length]
      exact hrows
    obtain ⟨cell, hplace, -⟩ := h.place hcolumn hrow
    obtain ⟨-, -, hcell⟩ := place_eq_ok hplace
    have hpicked : (pick rows c.cells)[k]? = some cell := by
      rw [getElem?_pick hin, hk]
      exact hcell
    have hcolumn' : (t.pickRows rows).columns[column]? = some { c with cells := pick rows c.cells } := by
      simp [pickRows, hcolumn]
    rw [cell_eq_ok.2 ⟨c, hcolumn, hrow, hcell⟩, cell_eq_ok.2 ⟨_, hcolumn', hklt, hpicked⟩]

theorem rows_withColumns_eq_zero (columns : List Column) :
    (t.withColumns columns).rows = 0 ↔ columns = [] ∨ t.rows = 0 := by
  cases columns with
  | nil => simp [withColumns]
  | cons c rest => simp [withColumns]

/-- **All that removing rows does**, in whatever order they are named and however often. -/
structure RemovesRows (t : Table) (indices : List Nat) : Prop where
  isOk_iff : (t.removeRows indices).1.isOk = true ↔ ∀ i ∈ indices, i < t.rows
  /-- Every column keeps its cells in the other rows, and nothing else changes. -/
  left : (∀ i ∈ indices, i < t.rows) → t.removeRows indices = (.ok (), t.pickRows (remaining t.rows indices))
  /-- What stood in one row stands in one row. -/
  aligned : ∀ k row, (remaining t.rows indices)[k]? = some row →
    ∀ column, (t.pickRows (remaining t.rows indices)).cell column k = t.cell column row
  /-- Only the set of the rows counts. -/
  unordered : (∀ i ∈ indices, i < t.rows) → ∀ others, (∀ i, i ∈ others ↔ i ∈ indices) →
    t.removeRows others = t.removeRows indices
  /-- The steps on descriptions and cells side by side come to the same. -/
  steps : Steps.Traces (Steps.removeRows indices) t (t.removeRows indices)

/-- **All that removing columns does**, in whatever order they are named and however often. -/
structure RemovesColumns (t : Table) (indices : List Nat) : Prop where
  isOk_iff : (t.removeColumns indices).1.isOk = true ↔ ∀ i ∈ indices, i < t.columns.length
  /-- The other columns stay with their cells, and the descriptions of those that go are given once each, from the
  highest index down. -/
  left : (∀ i ∈ indices, i < t.columns.length) →
    ∃ (order : List Nat) (infos : List ColumnInfo), order.Pairwise (· > ·) ∧ (∀ i, i ∈ order ↔ i ∈ indices) ∧
      infos.map some = order.map (t.infos[·]?) ∧
      t.removeColumns indices = (.ok infos, t.pickColumns (remaining t.columns.length indices))
  /-- Only the set of the columns counts. -/
  unordered : (∀ i ∈ indices, i < t.columns.length) → ∀ others, (∀ i, i ∈ others ↔ i ∈ indices) →
    t.removeColumns others = t.removeColumns indices
  /-- Without columns there are no rows, and otherwise the rows stay. -/
  rowless : (t.pickColumns (remaining t.columns.length indices)).rows = 0 ↔
    (t.pickColumns (remaining t.columns.length indices)).columns = [] ∨ t.rows = 0
  steps : Steps.Traces (Steps.removeColumns indices) t (t.removeColumns indices)

theorem descending_congr {others : List Nat} (h : ∀ i, i ∈ others ↔ i ∈ indices) :
    descending others = descending indices :=
  (pairwise_descending others).eq_of_mem_iff (pairwise_descending indices) fun i => by
    rw [mem_descending, mem_descending, h]

theorem removesRows (h : t.Shape) (indices : List Nat) : t.RemovesRows indices where
  isOk_iff := isOk_removeRows_iff h
  left := removeRows_of_forall h
  aligned := fun k row hk column => cell_pickRows h (fun r hr => (mem_remaining.1 hr).1) hk column
  unordered := by
    intro hin others hsame
    have hin' : ∀ i ∈ others, i < t.rows := fun i hi => hin i ((hsame i).1 hi)
    rw [removeRows_of_forall h hin, removeRows_of_forall h hin', remaining_congr hsame]
  steps := Steps.removeRows_traces h indices

theorem removesColumns (h : t.Shape) (indices : List Nat) : t.RemovesColumns indices where
  isOk_iff := isOk_removeColumns_iff h
  left := by
    intro hin
    obtain ⟨infos, hinfos, hremoved⟩ := removeColumns_of_forall h hin
    exact ⟨descending indices, infos, pairwise_descending indices, fun _ => mem_descending, hinfos, hremoved⟩
  unordered := by
    intro hin others hsame
    have hin' : ∀ i ∈ others, i < t.columns.length := fun i hi => hin i ((hsame i).1 hi)
    unfold removeColumns
    rw [forM_column_eq_ok.2 hin, forM_column_eq_ok.2 hin', descending_congr hsame]
  rowless := rows_withColumns_eq_zero _
  steps := Steps.removeColumns_traces t indices

/-- **A batch leaves exactly what it does not name**, on every table that has its shape. -/
theorem removals_leave_the_rest (h : t.Shape) (indices : List Nat) :
    t.RemovesRows indices ∧ t.RemovesColumns indices :=
  ⟨removesRows h indices, removesColumns h indices⟩

/-- Three columns of four cells, which tell where they stand. -/
def grid : Table :=
  (Table.empty "grid").run <| ["a", "b", "c"].mapIdx fun column name =>
    .addColumnWithCells (.ofKind name .integer) <| (List.range 4).map fun row =>
      ⟨.integer (.ofNat (10 * column + row)), Kind.integer.defaultTag⟩

/-- Rows and columns that are named twice and in no order. -/
theorem grid_batches :
    grid.Shape ∧ (∀ i ∈ [2, 0, 2], i < grid.rows) ∧
      grid.removeRows [2, 0, 2] = (.ok (), grid.pickRows [1, 3]) ∧
      (grid.pickRows [1, 3]).cell 2 1 = .ok ⟨.integer 23, Kind.integer.defaultTag⟩ ∧
      grid.removeColumns [2, 0, 2] = (.ok [.ofKind "c" .integer, .ofKind "a" .integer], grid.pickColumns [1]) ∧
      (grid.pickColumns [1]).rows = 4 ∧ (grid.removeColumns [0, 1, 3]).1.isOk = false := by
  have hshape : grid.Shape := (Shape.empty "grid").run _
  obtain ⟨hrows, hcolumns⟩ := removals_leave_the_rest hshape [2, 0, 2]
  refine ⟨hshape, by decide +kernel, ?_, ?_, ?_, by decide +kernel, ?_⟩
  · -- what is left does not depend on the order of the indices, or on how often they stand there
    exact hrows.left (by decide +kernel)
  · exact (hrows.aligned 1 3 (by decide +kernel) 2).trans (by decide +kernel)
  · -- the columns come back in the order in which they are removed, the last one first
    obtain ⟨order, infos, hfalling, hmem, hinfos, hremoved⟩ := hcolumns.left (by decide +kernel)
    obtain rfl : order = [2, 0] := hfalling.eq_of_mem_iff (by decide) fun i => by
      rw [hmem]
      simp only [List.mem_cons, List.not_mem_nil, or_false]
      omega
    have hinfos : infos = [.ofKind "c" .integer, .ofKind "a" .integer] := by
      apply List.map_injective_iff.2 (Option.some_injective _)
      exact hinfos.trans (by decide +kernel)
    rw [hinfos] at hremoved
    exact hremoved
  · -- one index is too great, so nothing is removed
    have hmissing := mt (removals_leave_the_rest hshape [0, 1, 3]).2.isOk_iff.1 (by decide +kernel)
    exact Bool.eq_false_iff.2 hmissing

end Table
end TableForest
