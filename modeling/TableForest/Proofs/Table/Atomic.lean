import Mathlib.Data.List.Basic
import TableForest.Proofs.Table.Steps

/-!
# Operations that fail change nothing

An operation on a table is all or nothing.  Most operations make all their checks before their first change;
the batches remove one column or row after the other and check again each time, but an index that was there
before the batch is there when its turn comes, because only higher ones have gone before it.

## The architecture

* **`Keeps`** says that a failure leaves the table; `Keeps.requiring` takes the checks off an operation.
* **`isOk_removeEachColumn`**, **`isOk_removeEachRow`** are the loops of the batches, along a list of indices
  that gets smaller at each step.
* **`all_or_nothing`** joins this with the steps of the operations.
-/

namespace TableForest.Table

variable {ε α β : Type} {t : Table}

/-- A failure leaves the table. -/
def Keeps (t : Table) (answer : Except ε α × Table) : Prop :=
  answer.1.isOk = false → answer.2 = t

theorem Keeps.ok (a : α) (left : Table) : t.Keeps ((.ok a, left) : Except ε α × Table) :=
  nofun

theorem Keeps.error (e : ε) : t.Keeps ((.error e, t) : Except ε α × Table) :=
  fun _ => rfl

theorem Keeps.requiring {check : Except TableError β} {next : β → Edited α}
    (h : ∀ b, check = .ok b → t.Keeps (next b)) : t.Keeps (t.requiring check next) := by
  unfold Table.requiring
  cases check with
  | error e => exact .error e
  | ok b => exact h b rfl

theorem Keeps.of_isOk {answer : Except ε α × Table} (h : answer.1.isOk = true) : t.Keeps answer := by
  intro hfail
  rw [h] at hfail
  cases hfail

/-! ## Batches -/

/-- From a list that does not rise, the first of each run of equal members is left. -/
theorem pairwise_gt_eraseDups : ∀ {indices : List Nat}, indices.Pairwise (· ≥ ·) →
    indices.eraseDups.Pairwise (· > ·)
  | [], _ => by simp
  | index :: rest, h => by
    rw [List.eraseDups_cons, List.pairwise_cons]
    obtain ⟨hle, hrest⟩ := List.pairwise_cons.1 h
    -- what is left after the first index is no greater, and it is not the first index itself
    constructor
    · intro i hi
      have hmem := List.mem_eraseDups.1 hi
      rw [List.mem_filter] at hmem
      have hi := hle i hmem.1
      have hne : i ≠ index := by simpa using hmem.2
      omega
    · exact pairwise_gt_eraseDups (hrest.filter _)
  termination_by indices => indices.length
  decreasing_by
    have := List.length_filter_le (fun b => !b == index) rest
    simp only [List.length_cons]
    omega

theorem mem_descending {indices : List Nat} {i : Nat} : i ∈ descending indices ↔ i ∈ indices := by
  simp [descending]

theorem pairwise_descending (indices : List Nat) : (descending indices).Pairwise (· > ·) := by
  apply pairwise_gt_eraseDups
  have hsorted : (indices.mergeSort fun a b => decide (b ≤ a)).Pairwise fun a b => decide (b ≤ a) = true := by
    apply List.pairwise_mergeSort
    · intro a b c hab hbc
      simp only [decide_eq_true_eq] at *
      omega
    · intro a b
      simp only [Bool.or_eq_true, decide_eq_true_eq]
      omega
  exact hsorted.imp fun hle => of_decide_eq_true hle

/-- The table with other columns of its rows; without any there are no rows. -/
def withColumns (t : Table) (columns : List Column) : Table :=
  { t with columns := columns, rows := if columns.isEmpty then 0 else t.rows }

/-- Removing a column that is there succeeds. -/
theorem removeColumn_eq {index : Nat} (h : index < t.columns.length) :
    t.removeColumn index = (.ok t.columns[index].info, t.withColumns (t.columns.eraseIdx index)) := by
  rw [removeColumn, column_eq_ok.2 (List.getElem?_eq_getElem h)]
  rfl

theorem length_withColumns_eraseIdx {index : Nat} (h : index < t.columns.length) :
    (t.withColumns (t.columns.eraseIdx index)).columns.length = t.columns.length - 1 :=
  List.length_eraseIdx_of_lt h

/-- Columns go from the highest index down: when the turn of one comes, all columns up to it are left. -/
theorem isOk_removeEachColumn {indices : List Nat} (hfalling : indices.Pairwise (· > ·)) :
    ∀ {t : Table}, (∀ i ∈ indices, i < t.columns.length) → (t.removeEachColumn indices).1.isOk = true := by
  induction indices with
  | nil =>
    intro t _
    rfl
  | cons index rest ih =>
    intro t hin
    obtain ⟨hlower, hrest⟩ := List.pairwise_cons.1 hfalling
    have hindex := hin index (by simp)
    have hlen := length_withColumns_eraseIdx hindex
    -- indices in front of the removed column stay those of the same columns
    have hleft := ih hrest (t := t.withColumns (t.columns.eraseIdx index)) fun i hi => by
      have := hlower i hi
      omega
    rw [removeEachColumn, removeColumn_eq hindex]
    dsimp only
    -- if the others failed, so would the batch, against the induction hypothesis
    rcases hothers : (t.withColumns (t.columns.eraseIdx index)).removeEachColumn rest with ⟨e | infos, last⟩
    · rw [hothers] at hleft
      cases hleft
    · rfl

theorem removeRow_eq_ok {index : Nat} (h : index < t.rows) :
    ∃ left, t.removeRow index = (.ok (), left) ∧ left.rows = t.rows - 1 :=
  ⟨_, by rw [removeRow, checkRow, if_pos h]; rfl, rfl⟩

theorem isOk_removeEachRow {indices : List Nat} (hfalling : indices.Pairwise (· > ·)) :
    ∀ {t : Table}, (∀ i ∈ indices, i < t.rows) → (t.removeEachRow indices).1.isOk = true := by
  induction indices with
  | nil =>
    intro t _
    rfl
  | cons index rest ih =>
    intro t hin
    obtain ⟨hlower, hrest⟩ := List.pairwise_cons.1 hfalling
    have hindex := hin index (by simp)
    obtain ⟨left, hremoved, hrows⟩ := removeRow_eq_ok hindex
    rw [removeEachRow, hremoved]
    exact ih hrest fun i hi => by
      have := hlower i hi
      omega

theorem removeColumns_keeps (t : Table) (indices : List Nat) : t.Keeps (t.removeColumns indices) := by
  refine .requiring fun _ hchecked => .of_isOk ?_
  refine isOk_removeEachColumn (pairwise_descending indices) fun i hi => ?_
  have hcheck := Except.forM_eq_ok hchecked i (mem_descending.1 hi)
  obtain ⟨c, hc, -⟩ := Except.map_eq_ok.1 hcheck
  exact (List.getElem?_eq_some_iff.1 (column_eq_ok.1 hc)).1

theorem removeRows_keeps (t : Table) (indices : List Nat) : t.Keeps (t.removeRows indices) := by
  refine .requiring fun _ hchecked => .of_isOk ?_
  refine isOk_removeEachRow (pairwise_descending indices) fun i hi => ?_
  exact checkRow_eq_ok.1 (Except.forM_eq_ok hchecked i (mem_descending.1 hi))

/-! ## The other operations -/

theorem addColumnWithCells_keeps (t : Table) (info : ColumnInfo) (cells : List Cell) :
    t.Keeps (t.addColumnWithCells info cells) := by
  refine .requiring fun _ _ => ?_
  split
  · exact .error _
  · refine .requiring fun _ _ => ?_
    split <;> exact .ok _ _

theorem addRowWithCells_keeps (t : Table) (cells : List Cell) : t.Keeps (t.addRowWithCells cells) := by
  refine .requiring fun _ _ => ?_
  split
  · exact .error _
  · exact .requiring fun _ _ => .ok _ _

theorem setCellValue_keeps (t : Table) (column row : Nat) (v : Value) :
    t.Keeps (t.setCellValue column row v) := by
  refine .requiring fun (col, c) _ => ?_
  dsimp only
  split
  · exact .error _
  · exact .requiring fun _ _ => .ok _ _

theorem commitCell_keeps (t : Table) (info : ColumnInfo) (column row : Nat) (wrap : TableError → ε)
    (result : Except ε Cell) : t.Keeps (t.commitCell info column row wrap result) := by
  unfold commitCell
  split
  · exact .error _
  · split
    · exact .error _
    · exact .ok _ _

theorem updateCell_keeps {σ : Type} (t : Table) (column row : Nat) (wrap : TableError → ε)
    (edit : CellEdit ε σ) (s : σ) :
    t.Keeps ((t.updateCell column row wrap edit s).1, (t.updateCell column row wrap edit s).2.1) := by
  unfold updateCell
  split
  · exact .error _
  · rename_i col c _
    exact commitCell_keeps t col.info column row wrap (edit c s).1

/-- The counter moves only once the cell has been committed. -/
theorem updateLinkedCell_keeps {σ : Type} (t : Table) (pathExists : Path → Bool) (column row : Nat)
    (wrap : TableError → ε) (edit : CellEdit ε σ) (s : σ) :
    t.Keeps ((t.updateLinkedCell pathExists column row wrap edit s).1,
      (t.updateLinkedCell pathExists column row wrap edit s).2.1) := by
  unfold updateLinkedCell
  split
  · exact .error _
  -- the link is made before the change and kept only with it, so a failure of the change keeps nothing
  · rename_i col c _
    split
    · exact updateCell_keeps t column row wrap edit s
    · split
      · exact .error _
      · rename_i link counter _
        have hcommit := commitCell_keeps t col.info column row wrap (edit (linkCell col.info link) s).1
        dsimp only
        split
        · rename_i e left hleft
          rw [hleft] at hcommit
          exact hcommit
        · exact .ok _ _

/-- An operation that fails leaves the table as it was. -/
theorem eq_of_perform_failed (t : Table) (op : TableOperation) (h : (t.perform op).1 = false) :
    (t.perform op).2 = t := by
  -- most operations check everything before their first change; the batches and the changes have lemmas
  revert h
  cases op with
  | addColumn info => exact Keeps.requiring fun _ _ => .ok _ _
  | addColumnWithCells info cells => exact t.addColumnWithCells_keeps info cells
  | removeColumn index => exact Keeps.requiring fun _ _ => .ok _ _
  | removeColumns indices => exact t.removeColumns_keeps indices
  | renameColumn index name => exact Keeps.requiring fun _ _ => .requiring fun _ _ => .ok _ _
  | setColumnSubtype index subtype => exact Keeps.requiring fun _ _ => .ok _ _
  | setLinkDefaults index link => exact Keeps.requiring fun _ _ => .ok _ _
  | setColumnExtra index key value => exact Keeps.requiring fun _ _ => .ok _ _
  | convertColumn index kind subtype => exact Keeps.requiring fun _ _ => .requiring fun _ _ => .ok _ _
  | addRow => exact Keeps.requiring fun _ _ => .ok _ _
  | addRowWithCells cells => exact t.addRowWithCells_keeps cells
  | removeRow index => exact Keeps.requiring fun _ _ => .ok _ _
  | removeRows indices => exact t.removeRows_keeps indices
  | setCellValue column row v => exact t.setCellValue_keeps column row v
  | setCellText column row s => exact Keeps.requiring fun _ _ => .requiring fun _ _ => .ok _ _
  | makeDefaultLink pathExists column row =>
    exact Keeps.requiring fun _ _ => .requiring fun _ _ => .ok _ _
  | updateCell column row wrap edit s => exact t.updateCell_keeps column row wrap edit s
  | updateLinkedCell pathExists column row wrap edit s =>
    exact t.updateLinkedCell_keeps pathExists column row wrap edit s
  | setName name => exact nofun
  | setWorkingDir dir => exact nofun
  | setCreation creation => exact nofun
  | setLinkPolicy policy => exact nofun

/-- **All or nothing.**  On a table that has its shape, the steps of an operation with any arguments either
get to their end and leave the table that the operation leaves, or they are stopped by a failure of the
operation, never by a panic, and then every member of the table is what it was before: names, descriptions
with their counters, cells, the number of rows, and what is said beside them.  A change of a cell may do
anything to its copy before it fails. -/
theorem all_or_nothing {t : Table} (h : t.Shape) (spoil : Cell → Cell) (op : TableOperation) :
    (∃ left : Table, t.perform op = (true, left) ∧
      (op.steps spoil).execute t.parts = (.ok (), left.parts)) ∨
    (t.perform op = (false, t) ∧
      (op.steps spoil).execute t.parts = (.error (.failed ()), t.parts)) := by
  have hsteps := TableOperation.execute_steps h spoil op
  rcases hperform : t.perform op with ⟨succeeded, left⟩
  rw [hperform] at hsteps
  cases succeeded with
  | true => exact .inl ⟨left, rfl, hsteps⟩
  | false =>
    have hleft : left = t := by
      have hkept := t.eq_of_perform_failed op (by rw [hperform])
      rwa [hperform] at hkept
    subst hleft
    exact .inr ⟨rfl, hsteps⟩

/-- One row of a batch is not there, so the others stay. -/
theorem removeRows_past_the_end :
    let t := (Table.empty "counts").run [.addColumn (.ofKind "Count" .integer), .addRow, .addRow]
    t.Shape ∧ t.rows = 2 ∧ t.perform (.removeRows [0, 9, 0]) = (false, t) ∧
      (TableOperation.steps id (.removeRows [0, 9, 0])).execute t.parts =
        (.error (.failed ()), t.parts) := by
  intro t
  have hshape : t.Shape := (Shape.empty "counts").run _
  refine ⟨hshape, by decide, ?_⟩
  rcases all_or_nothing hshape id (.removeRows [0, 9, 0]) with ⟨left, hperform, -⟩ | hfailed
  · have hsucceeded : (t.perform (.removeRows [0, 9, 0])).1 = true := by rw [hperform]
    exact absurd hsucceeded (by decide)
  · exact hfailed

end TableForest.Table
