import Mathlib.Data.List.Basic
import TableForest.Proofs.Steps
import TableForest.Proofs.Table.Shape
import TableForest.Table.Steps

/-!
# Operations step by step come to the same

The steps of an operation, in the order in which they check and change a table, answer what the operation
answers and leave what it leaves, on every table that has its shape.  No step on the way panics.

## The architecture

* **`execute_*`** run single steps: a check leaves the table, a change changes one member of one list.
* **`execute_forM_range`** is the one induction over the loops of the operations: each round changes the
  member at its own index, and the loop changes all of them.
* **`Traces`** says that steps come to the answer and the table of an operation; `Traces.requiring` peels a
  check off both, so that the proofs for operations follow their definitions.
* **`TableOperation.execute_steps`** says it of all operations, **`Parts.run?_parts`** of all histories, and
  **`Parts.shape_of_steps`** is what is known of the two lists then.
-/

namespace TableForest

open Table (Shape)

namespace Steps

variable {ε α β : Type} {p : Parts} {t : Table}

/-! ## Running single steps -/

theorem execute_readInfo {index : Nat} {info : ColumnInfo} (h : p.infos[index]? = some info) :
    execute (readInfo index : Steps Parts ε ColumnInfo) p = (.ok info, p) := by
  simp [readInfo, h]

theorem execute_readCells {index : Nat} {cells : List Cell} (h : p.data[index]? = some cells) :
    execute (readCells index : Steps Parts ε (List Cell)) p = (.ok cells, p) := by
  simp [readCells, h]

theorem execute_readCell {column row : Nat} {cells : List Cell} {c : Cell}
    (hcells : p.data[column]? = some cells) (hc : cells[row]? = some c) :
    execute (readCell column row : Steps Parts ε Cell) p = (.ok c, p) := by
  rw [readCell, execute_bind_ok (execute_readCells hcells), hc, execute_seek_some]

theorem execute_changeInfo {index : Nat} {info : ColumnInfo} (h : p.infos[index]? = some info)
    (f : ColumnInfo → ColumnInfo) :
    execute (changeInfo index f : Steps Parts ε Unit) p =
      (.ok (), { p with infos := p.infos.set index (f info) }) := by
  rw [changeInfo, execute_bind_ok (execute_readInfo h), execute_modify]

theorem execute_changeCells {index : Nat} {cells changed : List Cell}
    {f : List Cell → Option (List Cell)} (h : p.data[index]? = some cells) (hf : f cells = some changed) :
    execute (changeCells index f : Steps Parts ε Unit) p =
      (.ok (), { p with data := p.data.set index changed }) := by
  rw [changeCells, execute_bind_ok (execute_readCells h), hf, execute_bind_ok (execute_seek_some changed),
    execute_modify]

theorem execute_putCell {column row : Nat} {cells : List Cell} (h : p.data[column]? = some cells)
    (hrow : row < cells.length) (c : Cell) :
    execute (putCell column row c : Steps Parts ε Unit) p =
      (.ok (), { p with data := p.data.set column (cells.set row c) }) :=
  execute_changeCells h (if_pos hrow)

/-! ## Loops -/

/-- A loop over the indices of a list, whose round at an index changes the member there, changes all
members.  `put` says where the list stands in the table. -/
theorem execute_forM_range {γ : Type} {body : Nat → Steps Parts ε Unit} {put : List γ → Parts} {xs : List γ}
    {g : Nat → γ → γ}
    (hbody : ∀ (i : Nat) (x : γ) (ys : List γ), xs[i]? = some x → ys[i]? = some x →
      execute (body i) (put ys) = (.ok (), put (ys.set i (g i x)))) :
    execute ((List.range xs.length).forM body) (put xs) = (.ok (), put (xs.mapIdx g)) := by
  -- after `n` rounds the first `n` members are changed, and the others are as they were
  have hrounds : ∀ n ≤ xs.length,
      execute ((List.range n).forM body) (put xs) =
        (.ok (), put (xs.mapIdx fun i x => if i < n then g i x else x)) := by
    intro n
    induction n with
    | zero =>
      intro _
      have hsame : xs.mapIdx (fun i x => if i < 0 then g i x else x) = xs := by
        apply List.ext_getElem <;> simp
      rw [hsame]
      rfl
    | succ n ih =>
      intro hn
      have hx : xs[n]? = some xs[n] := List.getElem?_eq_getElem hn
      rw [List.range_succ, List.forM_eq_forM, List.forM_append, ← List.forM_eq_forM,
        execute_bind_ok (ih (by omega)), List.forM]
      have hround := hbody n xs[n] (xs.mapIdx fun i x => if i < n then g i x else x) hx (by simp [hx])
      rw [execute_bind_ok hround]
      show (_, put _) = (_, put _)
      congr 2
      apply List.ext_getElem?
      intro i
      rw [List.getElem?_set]
      by_cases hin : n = i
      · subst hin
        simp [show n < xs.length from hn]
      · simp only [hin, if_false, List.getElem?_mapIdx]
        have hiff : i < n + 1 ↔ i < n := by omega
        simp only [hiff]
  rw [hrounds xs.length (Nat.le_refl _)]
  congr 2
  apply List.ext_getElem
  · simp
  · intro i h₁ h₂
    have hi : i < xs.length := by simpa using h₂
    simp [hi]

theorem mapIdx_same {γ δ : Type} (xs : List γ) (f : γ → δ) : (xs.mapIdx fun _ x => f x) = xs.map f := by
  apply List.ext_getElem <;> simp

/-! ## Tables in their parts -/

theorem infos_of_column {index : Nat} {c : Column} (h : t.columns[index]? = some c) :
    t.parts.infos[index]? = some c.info := by
  simp [Table.parts, Table.infos, h]

theorem data_of_column {index : Nat} {c : Column} (h : t.columns[index]? = some c) :
    t.parts.data[index]? = some c.cells := by
  simp [Table.parts, h]

theorem column_of_data {index : Nat} {cells : List Cell} (h : t.parts.data[index]? = some cells) :
    ∃ c, t.columns[index]? = some c ∧ c.cells = cells := by
  simpa [Table.parts] using h

/-- A change of one column is a change of its description and one of its cells. -/
theorem parts_modifyColumn {index : Nat} {c : Column} (h : t.columns[index]? = some c)
    (f : Column → Column) :
    (t.modifyColumn index f).parts =
      { t.parts with
        infos := t.parts.infos.set index (f c).info
        data := t.parts.data.set index (f c).cells } := by
  rw [Table.modifyColumn_eq_set h]
  simp [Table.parts, Table.infos, List.map_set]

theorem set_eq_self {γ : Type} {xs : List γ} {index : Nat} {x : γ} (h : xs[index]? = some x) :
    xs.set index x = xs := by
  obtain ⟨hlt, rfl⟩ := List.getElem?_eq_some_iff.1 h
  exact List.set_getElem_self hlt

theorem parts_modifyInfo {index : Nat} {c : Column} (h : t.columns[index]? = some c)
    (f : ColumnInfo → ColumnInfo) :
    (t.modifyInfo index f).parts = { t.parts with infos := t.parts.infos.set index (f c.info) } := by
  rw [Table.modifyInfo, parts_modifyColumn h, set_eq_self (data_of_column h)]

theorem parts_putCell {column row : Nat} {col : Column} (h : t.columns[column]? = some col) (c : Cell) :
    (t.putCell column row c).parts =
      { t.parts with data := t.parts.data.set column (col.cells.set row c) } := by
  rw [Table.putCell, parts_modifyColumn h, set_eq_self (infos_of_column h)]

/-! ## Checks -/

theorem execute_checkColumn (t : Table) (index : Nat) :
    execute (checkColumn index) t.parts =
      (((t.column index).map fun _ => ()).mapError .failed, t.parts) := by
  have hlen : t.parts.infos.length = t.columns.length := List.length_map _
  rw [checkColumn, execute_get_bind, hlen, Table.column]
  by_cases h : index < t.columns.length
  · rw [if_pos h, List.getElem?_eq_getElem h]
    rfl
  · rw [if_neg h, List.getElem?_eq_none (Nat.not_lt.1 h)]
    rfl

theorem execute_checkRow (t : Table) (index : Nat) :
    execute (checkRow index) t.parts = ((t.checkRow index).mapError .failed, t.parts) := by
  show execute (if index < t.rows then pure () else fail (TableError.rowIndex index t.rows)) t.parts = _
  unfold Table.checkRow
  split <;> rfl

theorem execute_checkColumns (t : Table) :
    execute checkColumns t.parts = ((t.checkColumns).mapError .failed, t.parts) := by
  have hempty : t.parts.infos.isEmpty = t.columns.isEmpty := by simp [Table.parts, Table.infos]
  rw [checkColumns, execute_get_bind, hempty, Table.checkColumns]
  split <;> rfl

/-- What stands at a place is there to be read once the place has been checked. -/
theorem execute_checkPlace (h : t.Shape) (column row : Nat) :
    execute (checkPlace column row) t.parts =
      (((t.place column row).map fun _ => ()).mapError .failed, t.parts) := by
  rw [checkPlace, execute_bind, execute_checkColumn, Table.place]
  cases hcol : t.column column with
  | error e => rfl
  | ok c =>
    show execute (checkRow row) t.parts = _
    rw [execute_checkRow]
    cases hrow : t.checkRow row with
    | error e => rfl
    -- the row is in range, so the column has a cell there
    | ok u =>
      have hlt : row < c.cells.length := by
        rw [(h.fits_of_getElem? (Table.column_eq_ok.1 hcol)).length]
        exact Table.checkRow_eq_ok.1 hrow
      simp only [bind, Except.bind, List.getElem?_eq_getElem hlt]
      rfl

theorem execute_assertShape (h : t.Shape) :
    execute (assertShape : Steps Parts ε Unit) t.parts = (.ok (), t.parts) := by
  rw [assertShape, execute_get_bind]
  rw [execute_bind_ok (execute_assert (by simp [Table.parts, Table.infos]))]
  rw [execute_bind_ok (execute_assert ?_), execute_assert ?_]
  · cases hcols : t.columns with
    | nil => simp [Table.parts, h.rowless hcols]
    | cons c rest => simp [Table.parts, Table.infos, hcols]
  · simp only [Table.parts, List.all_map, List.all_eq_true]
    exact fun c hc => decide_eq_true (h.fits c hc).length

/-! ## Steps of an operation -/

/-- Steps come to the answer of an operation and to the table that it leaves. -/
def Traces (steps : Steps Parts ε α) (t : Table) (answer : Except ε α × Table) : Prop :=
  execute steps t.parts = (answer.1.mapError .failed, answer.2.parts)

/-- A check of the steps is one of the operation, and the rest of both follows it. -/
theorem Traces.requiring {γ : Type} {test : Steps Parts TableError γ} {next : γ → Steps Parts TableError α}
    {result : Except TableError β} {f : β → γ} {rest : β → Edited α}
    (htest : execute test t.parts = ((result.map f).mapError .failed, t.parts))
    (hrest : ∀ b, result = .ok b → Traces (next (f b)) t (rest b)) :
    Traces (test >>= next) t (t.requiring result rest) := by
  unfold Traces
  rw [execute_bind, htest]
  cases hresult : result with
  | error e => rfl
  | ok b => exact hrest b hresult

/-- The same for a check that has nothing to give. -/
theorem Traces.after {test : Steps Parts TableError Unit} {next : Unit → Steps Parts TableError α}
    {result : Except TableError Unit} {rest : Unit → Edited α}
    (htest : execute test t.parts = (result.mapError .failed, t.parts))
    (hrest : result = .ok () → Traces (next ()) t (rest ())) :
    Traces (test >>= next) t (t.requiring result rest) := by
  refine requiring (f := id) ?_ fun _ hresult => hrest hresult
  rw [htest]
  cases result <;> rfl

theorem Traces.check {next : β → Steps Parts TableError α} {result : Except TableError β} {rest : β → Edited α}
    (hrest : ∀ b, result = .ok b → Traces (next b) t (rest b)) :
    Traces (Steps.check result >>= next) t (t.requiring result rest) := by
  apply Traces.requiring (f := id) _ hrest
  cases result <;> rfl

theorem Traces.checkColumn {index : Nat} {next : Unit → Steps Parts TableError α} {rest : Column → Edited α}
    (hrest : ∀ c, t.columns[index]? = some c → Traces (next ()) t (rest c)) :
    Traces (Steps.checkColumn index >>= next) t (t.requiring (t.column index) rest) :=
  requiring (execute_checkColumn t index) fun c hc => hrest c (Table.column_eq_ok.1 hc)

/-- The last steps of an operation that succeeds. -/
theorem Traces.of_execute {steps : Steps Parts ε α} {a : α} {left : Table}
    (h : execute steps t.parts = (.ok a, left.parts)) : Traces steps t (.ok a, left) :=
  h

/-! ## Columns -/

theorem pushColumn_traces {info : ColumnInfo} {cells : List Cell}
    (h : (t.push ⟨info, cells⟩).2.Shape) :
    Traces (pushColumn info cells : Steps Parts TableError Nat) t (t.push ⟨info, cells⟩) := by
  have hparts : (t.push ⟨info, cells⟩).2.parts =
      { t.parts with infos := t.parts.infos ++ [info], data := t.parts.data ++ [cells] } := by
    simp [Table.push, Table.parts, Table.infos]
  rw [Traces, pushColumn, execute_modify_bind, execute_modify_bind, ← hparts,
    execute_bind_ok (execute_assertShape h), execute_get_bind, execute_pure, hparts]
  simp [Table.push, Table.parts, Table.infos, Except.mapError]

theorem addColumn_traces (h : t.Shape) (info : ColumnInfo) :
    Traces (addColumn info) t (t.addColumn info) := by
  refine .check fun _ hname => ?_
  rw [Traces, execute_get_bind]
  exact pushColumn_traces (Shape.push h.fits (.blank (Table.checkName_eq_ok.1 hname) t.rows))

theorem addColumnWithCells_traces (h : t.Shape) (info : ColumnInfo) (cells : List Cell) :
    Traces (addColumnWithCells info cells) t (t.addColumnWithCells info cells) := by
  have hempty : t.parts.infos.isEmpty = t.columns.isEmpty := by simp [Table.parts, Table.infos]
  have hshape := h.addColumnWithCells info cells
  unfold Table.addColumnWithCells at hshape ⊢
  refine .check fun _ hname => ?_
  simp only [Table.requiring, hname] at hshape
  rw [Traces, execute_get_bind, hempty]
  by_cases hcount : (!t.columns.isEmpty && decide (cells.length ≠ t.rows)) = true
  · rw [if_pos hcount]
    exact congrArg (execute · t.parts) (if_pos hcount)
  · rw [if_neg hcount] at hshape ⊢
    refine Eq.trans (congrArg (execute · t.parts) (if_neg hcount)) ?_
    refine Traces.check fun _ hcells => ?_
    simp only [hcells] at hshape
    cases hcols : t.columns.isEmpty with
    | true =>
      -- the first column brings its rows with it
      rw [hcols, if_pos rfl] at hshape
      rw [if_pos rfl, if_pos rfl, Traces, execute_modify_bind]
      exact pushColumn_traces (t := { t with rows := cells.length }) hshape
    | false =>
      rw [hcols, if_neg Bool.false_ne_true] at hshape
      rw [if_neg Bool.false_ne_true, if_neg Bool.false_ne_true, Traces]
      exact pushColumn_traces hshape

theorem removeColumn_traces (t : Table) (index : Nat) :
    Traces (removeColumn index) t (t.removeColumn index) := by
  refine .checkColumn fun c hc => ?_
  -- the cells are gone by now, but the description is still where it was
  have hinfo : ({ t.parts with data := t.parts.data.eraseIdx index } : Parts).infos[index]? =
      some c.info := infos_of_column hc
  rw [Traces, execute_bind_ok (execute_readCells (data_of_column hc)), execute_modify_bind,
    execute_bind_ok (execute_readInfo hinfo), execute_modify_bind, execute_get_bind]
  have hinfos : t.parts.infos.eraseIdx index = (t.columns.eraseIdx index).map Column.info := by
    simp [Table.parts, Table.infos, List.eraseIdx_eq_take_drop_succ]
  have hdata : t.parts.data.eraseIdx index = (t.columns.eraseIdx index).map Column.cells := by
    simp [Table.parts, List.eraseIdx_eq_take_drop_succ]
  simp only [hinfos, hdata]
  cases t.columns.eraseIdx index <;> rfl

/-- Batches take one column after the other, whatever the indices are. -/
theorem mapM_removeColumn_traces (indices : List Nat) :
    ∀ t : Table, Traces (indices.mapM removeColumn) t (t.removeEachColumn indices) := by
  induction indices with
  | nil =>
    intro t
    rfl
  | cons index rest ih =>
    intro t
    have hone : execute (removeColumn index) t.parts = _ := removeColumn_traces t index
    rw [Traces, List.mapM_cons, execute_bind, hone, Table.removeEachColumn]
    rcases t.removeColumn index with ⟨e | info, left⟩
    · -- nothing is left to be removed
      rfl
    · have hrest : execute (rest.mapM removeColumn) left.parts = _ := ih left
      show execute (rest.mapM removeColumn >>= _) left.parts = _
      rw [execute_bind, hrest]
      dsimp only
      rcases left.removeEachColumn rest with ⟨e | infos, last⟩ <;> rfl

theorem removeColumns_traces (t : Table) (indices : List Nat) :
    Traces (removeColumns indices) t (t.removeColumns indices) := by
  refine .after ?_ fun _ => mapM_removeColumn_traces (Table.descending indices) t
  rw [execute_forM_check fun index => execute_checkColumn t index]

theorem changeInfo_traces {index : Nat} {c : Column} (h : t.columns[index]? = some c)
    (f : ColumnInfo → ColumnInfo) :
    Traces (changeInfo index f : Steps Parts ε Unit) t (.ok (), t.modifyInfo index f) := by
  apply Traces.of_execute
  rw [execute_changeInfo (infos_of_column h), parts_modifyInfo h]

theorem renameColumn_traces (t : Table) (index : Nat) (name : String) :
    Traces (renameColumn index name) t (t.renameColumn index name) :=
  .checkColumn fun _ hc => .check fun _ _ => changeInfo_traces hc _

theorem setLinkDefaults_traces (t : Table) (index : Nat) (link : LinkDefaults) :
    Traces (setLinkDefaults index link) t (t.setLinkDefaults index link) :=
  .checkColumn fun _ hc => changeInfo_traces hc _

theorem setColumnExtra_traces (t : Table) (index : Nat) (key value : String) :
    Traces (setColumnExtra index key value) t (t.setColumnExtra index key value) :=
  .checkColumn fun _ hc => changeInfo_traces hc _

theorem setColumnSubtype_traces (t : Table) (index : Nat) (subtype : Tag) :
    Traces (setColumnSubtype index subtype) t (t.setColumnSubtype index subtype) := by
  refine .checkColumn fun c hc => ?_
  have hlt : index < t.parts.data.length := (List.getElem?_eq_some_iff.1 (data_of_column hc)).1
  -- the column as its cells stand in the table, after any number of rounds
  let put (cells : List Cell) : Parts := { t.parts with data := t.parts.data.set index cells }
  have hput : ∀ cells, (put cells).data[index]? = some cells := by
    intro cells
    simp [put, hlt]
  have hstart : t.parts = put c.cells := by
    simp only [put, set_eq_self (data_of_column hc)]
  rw [Traces, execute_bind_ok (execute_readCells (data_of_column hc)), hstart]
  rw [execute_bind_ok (execute_forM_range (g := fun _ cell => { cell with subtype := subtype }) ?_)]
  · have hinfo : (put (c.cells.mapIdx fun _ cell => { cell with subtype := subtype })).infos[index]? =
        some c.info := infos_of_column hc
    rw [execute_changeInfo hinfo, parts_modifyColumn hc, mapIdx_same]
    rfl
  · intro row cell cells _ hcell
    have hrow : row < cells.length := (List.getElem?_eq_some_iff.1 hcell).1
    rw [execute_bind_ok (execute_readCell (hput cells) hcell), execute_putCell (hput cells) hrow]
    simp [put]

theorem convertColumn_traces (t : Table) (index : Nat) (kind : Kind) (subtype : Tag) :
    Traces (convertColumn index kind subtype) t (t.convertColumn index kind subtype) := by
  refine .checkColumn fun c hc => ?_
  rw [Traces, execute_bind_ok (execute_readInfo (infos_of_column hc)),
    execute_bind_ok (execute_readCells (data_of_column hc))]
  refine Traces.check fun cells _ => ?_
  have hlt : index < t.parts.infos.length := (List.getElem?_eq_some_iff.1 (infos_of_column hc)).1
  have hkind : (t.parts.infos.set index { c.info with kind := kind })[index]? =
      some { c.info with kind := kind } := by simp [hlt]
  -- the cells are still the old ones when their turn comes
  have hcells : ∀ q : Parts, q.data = t.parts.data →
      execute (changeCells index fun _ => some cells : Steps Parts TableError Unit) q =
        (.ok (), { q with data := q.data.set index cells }) := by
    intro q hq
    exact execute_changeCells (by rw [hq]; exact data_of_column hc) rfl
  rw [Traces, execute_bind_ok (execute_changeInfo (infos_of_column hc) _),
    execute_bind_ok (execute_changeInfo hkind _)]
  refine (hcells _ (by rfl)).trans ?_
  rw [parts_modifyColumn hc]
  simp [Except.mapError]

/-! ## Rows -/

/-- A loop over the columns whose round at an index changes the cells of the column there. -/
theorem execute_forM_columns {body : Nat → Steps Parts ε Unit} {g : Nat → Column → List Cell}
    (hbody : ∀ (i : Nat) (c : Column) (data : List (List Cell)), t.columns[i]? = some c →
      data[i]? = some c.cells →
      execute (body i) { t.parts with data := data } =
        (.ok (), { t.parts with data := data.set i (g i c) })) :
    execute ((List.range t.parts.data.length).forM body) t.parts =
      (.ok (), { t.parts with data := t.columns.mapIdx g }) := by
  -- the loop is one over the lists of cells; each round looks up what its column has to add
  let round (i : Nat) (cells : List Cell) : List Cell := (t.columns[i]?.map (g i)).getD cells
  let put (data : List (List Cell)) : Parts := { t.parts with data := data }
  have hloop : execute ((List.range t.parts.data.length).forM body) (put t.parts.data) =
      (.ok (), put (t.parts.data.mapIdx round)) := by
    refine execute_forM_range fun i cells data hcells hdata => ?_
    obtain ⟨c, hc, rfl⟩ := column_of_data hcells
    have hround : round i c.cells = g i c := by simp [round, hc]
    rw [hround]
    exact hbody i c data hc hdata
  have hall : t.parts.data.mapIdx round = t.columns.mapIdx g := by
    apply List.ext_getElem?
    intro i
    cases hc : t.columns[i]? with
    | none => simp [Table.parts, hc]
    | some c => simp [Table.parts, round, hc]
  rw [← hall]
  exact hloop

theorem execute_countRow {left : Table} (h : left.Shape) (hparts : { p with rows := p.rows + 1 } = left.parts) :
    execute (countRow : Steps Parts ε Nat) p = (.ok p.rows, left.parts) := by
  rw [countRow, execute_modify_bind, hparts, execute_bind_ok (execute_assertShape h), execute_get_bind,
    execute_pure, ← hparts]
  rfl

theorem addRow_traces (h : t.Shape) : Traces addRow t t.addRow := by
  refine .after (execute_checkColumns t) fun hcolumns => ?_
  have hshape := h.addRow
  simp only [Table.addRow, Table.requiring, hcolumns] at hshape
  rw [Traces, execute_get_bind]
  rw [execute_bind_ok (execute_forM_columns (g := fun _ c => c.cells ++ [c.info.blank]) ?_)]
  · exact execute_countRow hshape (by simp [Table.parts, Table.infos, mapIdx_same])
  · intro i c data hc hdata
    have hinfo : ({ t.parts with data := data } : Parts).infos[i]? = some c.info := infos_of_column hc
    rw [execute_bind_ok (execute_readInfo hinfo)]
    exact execute_changeCells hdata rfl

/-- Once all cells have passed their checks, each column has one to take. -/
theorem addRowWithCells_traces (h : t.Shape) (cells : List Cell) :
    Traces (addRowWithCells cells) t (t.addRowWithCells cells) := by
  have hshape := h.addRowWithCells cells
  unfold Table.addRowWithCells at hshape ⊢
  refine .after (execute_checkColumns t) fun hcolumns => ?_
  simp only [Table.requiring, hcolumns] at hshape
  have hcount : t.parts.infos.length = t.columns.length := List.length_map _
  rw [Traces, execute_get_bind, hcount]
  -- the number of cells is compared before any of them is looked at
  by_cases hlen : cells.length ≠ t.columns.length
  · rw [if_pos hlen, if_pos hlen]
    rfl
  rw [if_neg hlen] at hshape ⊢
  rw [if_neg hlen]
  -- all cells are checked before the first is added
  refine Traces.after ?_ fun hcells => ?_
  · rw [execute_forM_check fun pair => execute_check _]
    have hzip : t.parts.infos.zip cells = (t.columns.zip cells).map fun p => (p.1.info, p.2) := by
      simp [Table.parts, Table.infos, List.zip_map_left]
    rw [hzip, List.forM_eq_forM, List.forM_map]
    rfl
  simp only [hcells] at hshape
  rw [Traces]
  -- the cells are added column by column, and then the row is counted
  rw [execute_bind_ok (execute_forM_columns (g := fun i c => c.cells ++ (cells[i]?).toList) ?_)]
  · refine execute_countRow hshape ?_
    have hlen : cells.length = t.columns.length := Decidable.not_not.1 hlen
    simp only [Table.parts, Table.infos, List.map_zipWith, Parts.mk.injEq, true_and, and_true]
    constructor
    · apply List.ext_getElem <;> simp [hlen]
    · apply List.ext_getElem
      · simp [hlen]
      · intro i _ hi
        have hcell : i < cells.length := by
          rw [List.length_zipWith] at hi
          omega
        simp [hcell]
  · intro i c data hc hdata
    have hi : i < cells.length := by
      have hcolumn : i < t.columns.length := (List.getElem?_eq_some_iff.1 hc).1
      omega
    rw [List.getElem?_eq_getElem hi, execute_bind_ok (execute_seek_some cells[i])]
    exact execute_changeCells hdata rfl

theorem removeRow_traces (h : t.Shape) (index : Nat) : Traces (removeRow index) t (t.removeRow index) := by
  refine .after (execute_checkRow t index) fun hrow => ?_
  have hlt : index < t.rows := Table.checkRow_eq_ok.1 hrow
  have hshape := h.removeRow index
  simp only [Table.removeRow, Table.requiring, hrow] at hshape
  rw [Traces, execute_get_bind]
  rw [execute_bind_ok (execute_forM_columns (g := fun _ c => c.cells.eraseIdx index) ?_)]
  · rw [execute_modify_bind]
    have hassert := execute_assertShape (ε := TableError) hshape
    simpa [Table.parts, Table.infos, mapIdx_same, Function.comp_def, Except.mapError] using hassert
  · intro i c data hc hdata
    have hcell : index < c.cells.length := by rw [(h.fits_of_getElem? hc).length]; exact hlt
    exact execute_changeCells hdata (if_pos hcell)

theorem forM_removeRow_traces (indices : List Nat) :
    ∀ {t : Table}, t.Shape → Traces (indices.forM removeRow) t (t.removeEachRow indices) := by
  induction indices with
  | nil =>
    intro t _
    rfl
  | cons index rest ih =>
    intro t h
    have hone : execute (removeRow index) t.parts = _ := removeRow_traces h index
    have hleft := h.removeRow index
    rw [Traces, List.forM, execute_bind, hone, Table.removeEachRow]
    rcases hremoved : t.removeRow index with ⟨e | _, left⟩
    · rfl
    · rw [hremoved] at hleft
      exact ih hleft

theorem removeRows_traces (h : t.Shape) (indices : List Nat) :
    Traces (removeRows indices) t (t.removeRows indices) := by
  refine .after ?_ fun _ => forM_removeRow_traces (Table.descending indices) h
  rw [execute_forM_check fun index => execute_checkRow t index]

/-! ## Cells -/

theorem Traces.checkPlace {column row : Nat} {next : Unit → Steps Parts TableError α}
    {rest : Column × Cell → Edited α} (h : t.Shape)
    (hrest : ∀ col c, t.columns[column]? = some col → col.cells[row]? = some c →
      Traces (next ()) t (rest (col, c))) :
    Traces (Steps.checkPlace column row >>= next) t (t.requiring (t.place column row) rest) :=
  requiring (execute_checkPlace h column row) fun (col, c) hplace =>
    hrest col c (Table.place_eq_ok hplace).1 (Table.place_eq_ok hplace).2.2

theorem execute_putCell_parts {column row : Nat} {col : Column} {c : Cell}
    (hcol : t.columns[column]? = some col) (hc : col.cells[row]? = some c) (cell : Cell) :
    execute (putCell column row cell : Steps Parts ε Unit) t.parts =
      (.ok (), (t.putCell column row cell).parts) := by
  have hrow : row < col.cells.length := (List.getElem?_eq_some_iff.1 hc).1
  rw [execute_putCell (data_of_column hcol) hrow, parts_putCell hcol]

theorem setCellValue_traces (h : t.Shape) (column row : Nat) (v : Value) :
    Traces (setCellValue column row v) t (t.setCellValue column row v) := by
  refine .checkPlace h fun col c hcol hc => ?_
  rw [Traces, execute_bind_ok (execute_readInfo (infos_of_column hcol))]
  by_cases hkind : v.kind ≠ col.info.kind
  · simp only [if_pos hkind]
    rfl
  · simp only [if_neg hkind]
    rw [execute_bind_ok (execute_readCell (data_of_column hcol) hc)]
    exact Traces.check fun cell _ => .of_execute (execute_putCell_parts hcol hc cell)

theorem setCellText_traces (h : t.Shape) (column row : Nat) (s : String) :
    Traces (setCellText column row s) t (t.setCellText column row s) := by
  refine .checkPlace h fun col c hcol hc => ?_
  rw [Traces, execute_bind_ok (execute_readCell (data_of_column hcol) hc)]
  exact Traces.check fun cell _ => .of_execute (execute_putCell_parts hcol hc cell)

variable {σ : Type}

/-- A change either is refused, and nothing is committed, or it leaves a copy that fits the column, and that
is what is committed. -/
theorem execute_edited (spoil : Cell → Cell) (edit : CellEdit ε σ) (s : σ) (info : ColumnInfo)
    (row : Nat) (wrap : TableError → ε) (c : Cell) (p : Parts) :
    (∃ e, execute (edited info row wrap (TableOperation.work spoil edit s) c) p = (.error (.failed e), p) ∧
      ∀ (t : Table) (column : Nat), t.commitCell info column row wrap (edit c s).1 = (.error e, t)) ∨
    ∃ copy, execute (edited info row wrap (TableOperation.work spoil edit s) c) p = (.ok copy, p) ∧
      (copy.kind = info.kind ∧ copy.subtype = info.subtype) ∧
      ∀ (t : Table) (column : Nat),
        t.commitCell info column row wrap (edit c s).1 = (.ok (), t.putCell column row copy) := by
  simp only [edited, TableOperation.work, Table.commitCell]
  cases (edit c s).1 with
  | error e => exact .inl ⟨e, rfl, fun t column => rfl⟩
  | ok copy =>
    dsimp only
    cases hcheck : Table.checkCell info (some row) copy with
    | error e => exact .inl ⟨wrap e, rfl, fun t column => rfl⟩
    | ok u => exact .inr ⟨copy, rfl, Table.checkCell_eq_ok.1 hcheck, fun t column => rfl⟩

/-- The failures of the table's own checks come out as the change has them. -/
theorem execute_wrapping_checkPlace (h : t.Shape) (column row : Nat) (wrap : TableError → ε) :
    execute (wrapping wrap (checkPlace column row)) t.parts =
      (((t.place column row).mapError (Halt.failed ∘ wrap)).map fun _ => (), t.parts) := by
  rw [execute_wrapping, execute_checkPlace h]
  cases t.place column row <;> rfl

theorem updateCell_traces (h : t.Shape) (spoil : Cell → Cell) (column row : Nat)
    (wrap : TableError → ε) (edit : CellEdit ε σ) (s : σ) :
    Traces (updateCell column row wrap (TableOperation.work spoil edit s)) t
      ((t.updateCell column row wrap edit s).1, (t.updateCell column row wrap edit s).2.1) := by
  rw [Traces, updateCell, execute_bind, execute_wrapping_checkPlace h, Table.updateCell]
  -- a place that is not there is reported as the change has its failures
  cases hplace : t.place column row with
  | error e => rfl
  | ok found =>
    obtain ⟨col, c⟩ := found
    obtain ⟨hcol, -, hc⟩ := Table.place_eq_ok hplace
    show execute (readInfo column >>= _) t.parts = _
    rw [execute_bind_ok (execute_readInfo (infos_of_column hcol)),
      execute_bind_ok (execute_readCell (data_of_column hcol) hc)]
    -- the copy that the change has worked on is committed, or dropped with its failure
    rcases execute_edited spoil edit s col.info row wrap c t.parts with
      ⟨e, hedit, hcommit⟩ | ⟨copy, hedit, -, hcommit⟩
    · rw [execute_bind, hedit]
      simp only [hcommit t column]
      rfl
    · rw [execute_bind_ok hedit, execute_putCell_parts hcol hc]
      simp only [hcommit t column]
      rfl

/-! ## Links -/

theorem execute_nextLink (h : t.Shape) {column row : Nat} {col : Column} {c : Cell}
    (hplace : t.place column row = .ok (col, c)) (pathExists : Path → Bool) :
    execute (nextLink pathExists column row) t.parts =
      ((t.nextLink pathExists col.info).mapError .failed, t.parts) := by
  have hcol := (Table.place_eq_ok hplace).1
  have hcheck : execute (checkPlace column row) t.parts = (.ok (), t.parts) := by
    rw [execute_checkPlace h, hplace]
    rfl
  rw [nextLink, execute_bind_ok hcheck, execute_bind_ok (execute_readInfo (infos_of_column hcol)),
    execute_get_bind, execute_check]
  -- names depend on the policy and the directory of the table, not on its columns
  rfl

/-- A cell that fits the column takes its place, and the counter moves on. -/
theorem execute_replaceCell {column row : Nat} {col : Column} {c cell : Cell}
    (hcol : t.columns[column]? = some col) (hc : col.cells[row]? = some c)
    (hfits : cell.kind = col.info.kind ∧ cell.subtype = col.info.subtype) (counter : UInt32) :
    execute (replaceCell column row cell >>= fun _ => setCounter column counter : Steps Parts ε Unit) t.parts =
      (.ok (), ((t.putCell column row cell).setCounter column counter).parts) := by
  have hreplace : execute (replaceCell column row cell : Steps Parts ε Unit) t.parts =
      (.ok (), (t.putCell column row cell).parts) := by
    rw [replaceCell, execute_bind_ok (execute_readInfo (infos_of_column hcol)),
      execute_bind_ok (execute_assert (by simp [Cell.isCompatible, hfits])),
      execute_putCell_parts hcol hc]
  have hput : (t.putCell column row cell).columns[column]? =
      some { col with cells := col.cells.set row cell } := by
    simp [Table.putCell, Table.modifyColumn, hcol]
  rw [execute_bind_ok hreplace]
  exact changeInfo_traces hput _

theorem makeDefaultLink_traces (h : t.Shape) (pathExists : Path → Bool) (column row : Nat) :
    Traces (makeDefaultLink pathExists column row) t (t.makeDefaultLink pathExists column row) := by
  unfold Traces Table.makeDefaultLink Table.requiring
  -- the place is checked twice, once for the link and once for the cell
  cases hplace : t.place column row with
  | error e =>
    have hcheck : execute (nextLink pathExists column row) t.parts = (.error (.failed e), t.parts) := by
      rw [nextLink, execute_bind, execute_checkPlace h, hplace]
      rfl
    rw [makeDefaultLink, execute_bind, hcheck]
    rfl
  | ok found =>
    obtain ⟨col, c⟩ := found
    obtain ⟨hcol, -, hc⟩ := Table.place_eq_ok hplace
    rw [makeDefaultLink, execute_bind, execute_nextLink h hplace]
    cases hlink : t.nextLink pathExists col.info with
    | error e => simp only [hlink]; rfl
    | ok next =>
      obtain ⟨link, counter⟩ := next
      simp only [hlink]
      show execute (readInfo column >>= _) t.parts = _
      -- a link is only made in a column of links, so the new cell fits
      have hfits : (Table.linkCell col.info link).kind = col.info.kind ∧
          (Table.linkCell col.info link).subtype = col.info.subtype :=
        ⟨(Shape.kind_of_nextLink hlink).symm, rfl⟩
      rw [execute_bind_ok (execute_readInfo (infos_of_column hcol)), ← bind_assoc,
        execute_bind_ok (execute_replaceCell hcol hc hfits counter)]
      rfl

theorem updateLinkedCell_traces (h : t.Shape) (spoil : Cell → Cell) (pathExists : Path → Bool)
    (column row : Nat) (wrap : TableError → ε) (edit : CellEdit ε σ) (s : σ) :
    Traces (updateLinkedCell pathExists column row wrap (TableOperation.work spoil edit s)) t
      ((t.updateLinkedCell pathExists column row wrap edit s).1,
        (t.updateLinkedCell pathExists column row wrap edit s).2.1) := by
  rw [Traces, updateLinkedCell, execute_bind, execute_wrapping_checkPlace h, Table.updateLinkedCell]
  cases hplace : t.place column row with
  | error e => rfl
  | ok found =>
    obtain ⟨col, c⟩ := found
    obtain ⟨hcol, -, hc⟩ := Table.place_eq_ok hplace
    show execute (readInfo column >>= _) t.parts = _
    rw [execute_bind_ok (execute_readInfo (infos_of_column hcol)),
      execute_bind_ok (execute_readCell (data_of_column hcol) hc)]
    -- a cell that has a link, or cannot have one, is changed as any other
    by_cases hlinked : col.info.kind ≠ .fileLink ∨ c.link?.isSome
    · simp only [if_pos hlinked]
      exact updateCell_traces h spoil column row wrap edit s
    · simp only [if_neg hlinked]
      rw [execute_bind, execute_wrapping, execute_nextLink h hplace]
      cases hlink : t.nextLink pathExists col.info with
      | error e => rfl
      | ok next =>
        obtain ⟨link, counter⟩ := next
        show execute (edited _ _ _ _ _ >>= _) t.parts = _
        -- the new link is in the copy only; it is committed with the counter, or not at all
        rcases execute_edited spoil edit s col.info row wrap (Table.linkCell col.info link) t.parts with
          ⟨e, hedit, hcommit⟩ | ⟨copy, hedit, hfits, hcommit⟩
        · rw [execute_bind, hedit]
          simp only [hcommit t column]
          rfl
        · rw [execute_bind_ok hedit, execute_replaceCell hcol hc hfits counter]
          simp only [hcommit t column]
          rfl

/-! ## All operations -/

/-- The outcome of steps is that of the operation that they come to. -/
theorem Traces.outcome {steps : Steps Parts ε α} {answer : Except ε α × Table} (h : Traces steps t answer) :
    execute steps.outcome t.parts =
      (if answer.1.isOk then .ok () else .error (.failed ()), answer.2.parts) := by
  have hsteps : execute steps t.parts = _ := h
  rw [Steps.outcome, execute_bind, execute_wrapping, hsteps]
  rcases answer with ⟨e | a, left⟩ <;> rfl

end Steps

/-- **Operations step by step.**  On a table that has its shape, the steps of an operation succeed iff the
operation does, they never panic, and they leave the same table. -/
theorem TableOperation.execute_steps {t : Table} (h : t.Shape) (spoil : Cell → Cell) (op : TableOperation) :
    (op.steps spoil).execute t.parts =
      (if (t.perform op).1 then .ok () else .error (.failed ()), (t.perform op).2.parts) := by
  cases op with
  | addColumn info => exact (Steps.addColumn_traces h info).outcome
  | addColumnWithCells info cells => exact (Steps.addColumnWithCells_traces h info cells).outcome
  | removeColumn index => exact (Steps.removeColumn_traces t index).outcome
  | removeColumns indices => exact (Steps.removeColumns_traces t indices).outcome
  | renameColumn index name => exact (Steps.renameColumn_traces t index name).outcome
  | setColumnSubtype index subtype => exact (Steps.setColumnSubtype_traces t index subtype).outcome
  | setLinkDefaults index link => exact (Steps.setLinkDefaults_traces t index link).outcome
  | setColumnExtra index key value => exact (Steps.setColumnExtra_traces t index key value).outcome
  | convertColumn index kind subtype => exact (Steps.convertColumn_traces t index kind subtype).outcome
  | addRow => exact (Steps.addRow_traces h).outcome
  | addRowWithCells cells => exact (Steps.addRowWithCells_traces h cells).outcome
  | removeRow index => exact (Steps.removeRow_traces h index).outcome
  | removeRows indices => exact (Steps.removeRows_traces h indices).outcome
  | setCellValue column row v => exact (Steps.setCellValue_traces h column row v).outcome
  | setCellText column row s => exact (Steps.setCellText_traces h column row s).outcome
  | makeDefaultLink pathExists column row =>
    exact (Steps.makeDefaultLink_traces h pathExists column row).outcome
  | updateCell column row wrap edit s =>
    exact (Steps.updateCell_traces h spoil column row wrap edit s).outcome
  | updateLinkedCell pathExists column row wrap edit s =>
    exact (Steps.updateLinkedCell_traces h spoil pathExists column row wrap edit s).outcome
  | setName name => rfl
  | setWorkingDir dir => rfl
  | setCreation creation => rfl
  | setLinkPolicy policy => rfl

namespace Parts

/-- **Histories step by step**: no operation of a history panics, and all of it leaves what the history leaves. -/
theorem run?_parts {t : Table} (h : t.Shape) (spoil : Cell → Cell) (history : List TableOperation) :
    t.parts.run? spoil history = some (t.run history).parts := by
  induction history generalizing t with
  | nil => rfl
  | cons op rest ih =>
    have hrest : (t.perform op).2.parts.run? spoil rest = some (t.run (op :: rest)).parts := ih (h.perform op)
    -- a failure is no panic, so the next operation is taken up in both cases
    rw [run?, TableOperation.execute_steps h spoil op, ← hrest]
    cases (t.perform op).1 <;> rfl

/-- A table as it is kept has its shape: the two lists are of one length and agree index by index, each list of cells
has a cell for each row, no column lacks a name, and without columns there are no rows. -/
structure Shape (p : Parts) : Prop where
  even : p.infos.length = p.data.length
  lengths : ∀ cells ∈ p.data, cells.length = p.rows
  cells : ∀ (i : Nat) (info : ColumnInfo) (cells : List Cell), p.infos[i]? = some info → p.data[i]? = some cells →
    ∀ c ∈ cells, c.kind = info.kind ∧ c.subtype = info.subtype
  named : ∀ info ∈ p.infos, info.name ≠ ""
  rowless : p.infos = [] → p.rows = 0

theorem shape_parts {t : Table} (h : t.Shape) : t.parts.Shape where
  even := by simp only [Table.parts, Table.infos, List.length_map]
  lengths := by
    intro cells hcells
    obtain ⟨c, hc, rfl⟩ := List.mem_map.1 hcells
    exact (h.fits c hc).length
  cells := by
    intro i info cells hinfo hcells c hc
    obtain ⟨col, hcol, rfl⟩ := Option.map_eq_some_iff.1 (List.getElem?_map ▸ hinfo)
    obtain ⟨col', hcol', rfl⟩ := Option.map_eq_some_iff.1 (List.getElem?_map ▸ hcells)
    -- description and cells come from one column
    obtain rfl := Option.some.inj (hcol.symm.trans hcol')
    have hfits := h.fits_of_getElem? hcol
    exact ⟨hfits.kinds c hc, hfits.subtypes c hc⟩
  named := by
    intro info hinfo
    obtain ⟨c, hc, rfl⟩ := List.mem_map.1 hinfo
    exact (h.fits c hc).named
  rowless := fun hnone => h.rowless (List.map_eq_nil_iff.1 hnone)

/-- **Whatever is done to a new table, step by step, the two lists that it is kept in have their shape afterwards**:
any operation of the history may fail, and none panics. -/
theorem shape_of_steps (name : String) (spoil : Cell → Cell) (history : List TableOperation) :
    ∃ p, (Table.empty name).parts.run? spoil history = some p ∧ p.Shape :=
  ⟨_, run?_parts (Shape.empty name) spoil history, shape_parts ((Shape.empty name).run history)⟩

end Parts

end TableForest
