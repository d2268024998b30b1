import Mathlib.Data.List.Forall2
import TableForest.Document.Basic
import TableForest.Proofs.Cell.Text
import TableForest.Proofs.Table.Shape

/-!
# Stored tables

The stored form of a table keeps the texts of its cells and not the cells.  A table is built from it column by
column.

## The architecture

* **`TableDocument.Acceptable`** says of a stored table that its columns have names and cells for the same rows, and
  that all texts spell values.  **`TableDocument.toTable_of_acceptable`** builds the table, and says from what each
  cell was read (**`ColumnDocument.ReadAs`**).
* **`ColumnDocument.normal`** is a stored column as it is written: a column that is read and stored again is in
  that form (**`ReadAs.ofColumn`**), and one that was stored before stays as it is (**`normal_ofColumn`**).
* So a table of the right shape is built anew from its stored form: **`TableDocument.toTable_ofTable`**.
-/

namespace TableForest

/-- Two tables say the same: they are described alike, and their cells have the same texts in the same places. -/
structure Table.SameContent (t u : Table) : Prop where
  name : u.name = t.name
  workingDir : u.workingDir = t.workingDir
  creation : u.creation = t.creation
  linkPolicy : u.linkPolicy = t.linkPolicy
  infos : u.infos = t.infos
  rows : u.rows = t.rows
  texts : u.columns.map (·.cells.map Cell.text) = t.columns.map (·.cells.map Cell.text)

/-- The text in which the value that a text spells is written; a text that spells none is left alone. -/
def Value.canonicalText (kind : Kind) (s : String) : String :=
  match Value.read? kind s with
  | some v => v.toText
  | none => s

theorem Value.canonicalText_of_parse {kind : Kind} {s : String} {v : Value} (h : Value.parse kind s = .ok v) :
    Value.canonicalText kind s = v.toText := by
  unfold Value.parse at h
  unfold Value.canonicalText
  cases hread : Value.read? kind s with
  | none =>
    rw [hread] at h
    cases h
  | some w =>
    rw [hread] at h
    rw [Except.ok.inj h]

/-- The text of a value is canonical. -/
theorem Value.canonicalText_toText (v : Value) : Value.canonicalText v.kind v.toText = v.toText := by
  obtain ⟨w, hread, htext, -⟩ := Value.read?_toText v
  unfold Value.canonicalText
  rw [hread]
  exact htext

section LeftOut

variable {α : Type} [DecidableEq α]

/-- Settings that are left out if they are as usual are read back. -/
theorem getD_ite_none (a usual : α) : (if a = usual then none else some a).getD usual = a := by
  split
  · rename_i heq
    rw [heq, Option.getD_none]
  · rfl

/-- Settings that are read and left out if they are as usual. -/
theorem ite_none_eq_filter (settings : Option α) (usual : α) :
    (if settings.getD usual = usual then none else some (settings.getD usual)) = settings.filter (· ≠ usual) := by
  cases settings with
  | none => rw [Option.getD_none, if_pos rfl, Option.filter_none]
  | some a => by_cases ha : a = usual <;> simp [Option.filter, ha]

end LeftOut

/-! ## Columns -/

namespace ColumnDocument

theorem info_ofColumn (c : Column) : (ofColumn c).info = c.info := by
  unfold info ofColumn
  simp only [getD_ite_none]

/-- A text spells a value of the kind of a column. -/
def Spells (c : ColumnDocument) (s : String) : Prop :=
  ∃ v, Value.parse c.kind s = .ok v

/-- A column for so many rows: it has a name, and for each row a text that spells a value. -/
structure Acceptable (rows : Nat) (c : ColumnDocument) : Prop where
  spelled : ∀ s ∈ c.cells, c.Spells s
  named : c.name ≠ ""
  length : c.cells.length = rows

instance (c : ColumnDocument) (s : String) : Decidable (c.Spells s) :=
  decidable_of_iff ((Value.read? c.kind s).isSome = true) <| by
    unfold Spells Value.parse
    cases Value.read? c.kind s with
    | some v => simp
    | none => simp

instance (rows : Nat) (c : ColumnDocument) : Decidable (c.Acceptable rows) :=
  decidable_of_iff ((∀ s ∈ c.cells, c.Spells s) ∧ c.name ≠ "" ∧ c.cells.length = rows)
    ⟨fun ⟨hspelled, hnamed, hlength⟩ => ⟨hspelled, hnamed, hlength⟩, fun h => ⟨h.spelled, h.named, h.length⟩⟩

/-- A column has the description of a stored one, and its cells are what the texts are read as. -/
structure ReadAs (c : ColumnDocument) (column : Column) : Prop where
  info : column.info = c.info
  cells : List.Forall₂ (fun s cell => Cell.parse c.kind c.subtype s = .ok cell) c.cells column.cells

/-- A stored column as it is written: settings of links that say nothing are left out, and the texts of the cells are
canonical. -/
def normal (c : ColumnDocument) : ColumnDocument :=
  { c with
    link := c.link.filter (· ≠ .none)
    cells := c.cells.map (Value.canonicalText c.kind) }

/-- Texts that spell values are read. -/
theorem readCells_of_spelled (table : String) {c : ColumnDocument} {texts : List String}
    (h : ∀ s ∈ texts, c.Spells s) (row : Nat) :
    ∃ cells, c.readCells table row texts = .ok cells ∧
      List.Forall₂ (fun s cell => Cell.parse c.kind c.subtype s = .ok cell) texts cells := by
  induction texts generalizing row with
  | nil => exact ⟨[], rfl, .nil⟩
  | cons s rest ih =>
    rw [List.forall_mem_cons] at h
    -- a text that spells a value is read as that value, with the subtype of its column
    obtain ⟨⟨v, hv⟩, hrest⟩ := h
    obtain ⟨cells, hread, hcells⟩ := ih hrest (row + 1)
    have hparse : Cell.parse c.kind c.subtype s = .ok ⟨v, c.subtype⟩ := by
      unfold Cell.parse
      rw [hv]
      rfl
    refine ⟨⟨v, c.subtype⟩ :: cells, ?_, .cons hparse hcells⟩
    rw [readCells, hparse]
    simp only [hread]
    rfl

/-- What an acceptable column is read as fits its rows. -/
theorem ReadAs.fits {c : ColumnDocument} {column : Column} (h : c.ReadAs column) {rows : Nat}
    (hc : c.Acceptable rows) : column.Fits rows := by
  obtain ⟨hlength, hcells⟩ := Table.fits_of_parsed h.cells
  refine ⟨?_, hlength.trans hc.length, fun cell hcell => ?_, fun cell hcell => ?_⟩
  · rw [h.info]
    exact hc.named
  · rw [h.info]
    exact (hcells cell hcell).1
  · rw [h.info]
    exact (hcells cell hcell).2

/-- The stored form of a column is acceptable for the rows of the column. -/
theorem acceptable_ofColumn {rows : Nat} {column : Column} (h : column.Fits rows) :
    (ofColumn column).Acceptable rows := by
  refine ⟨?_, h.named, (List.length_map _).trans h.length⟩
  show ∀ s ∈ column.cells.map Cell.text, (ofColumn column).Spells s
  rw [List.forall_mem_map]
  intro cell hcell
  obtain ⟨d, hparse, -⟩ := cell.parse_text
  obtain ⟨v, hv, -⟩ := Except.map_eq_ok.1 hparse
  rw [h.kinds cell hcell] at hv
  exact ⟨v, hv⟩

/-- **A column that is read and stored again is in its normal form.** -/
theorem ReadAs.ofColumn {c : ColumnDocument} {column : Column} (h : c.ReadAs column) :
    ColumnDocument.ofColumn column = c.normal := by
  have htexts : column.cells.map Cell.text = c.cells.map (Value.canonicalText c.kind) := by
    rw [← List.forall₂_eq_eq_eq, List.forall₂_map_left_iff, List.forall₂_map_right_iff]
    refine (h.cells.imp fun s cell hparse => ?_).flip
    obtain ⟨v, hv, rfl⟩ := Except.map_eq_ok.1 hparse
    exact (Value.canonicalText_of_parse hv).symm
  unfold ColumnDocument.ofColumn normal
  rw [htexts, h.info, ← ite_none_eq_filter]
  rfl

/-- The stored form of a column is normal already. -/
theorem normal_ofColumn {rows : Nat} {column : Column} (h : column.Fits rows) :
    (ofColumn column).normal = ofColumn column := by
  have htexts : (column.cells.map Cell.text).map (Value.canonicalText column.info.kind) =
      column.cells.map Cell.text := by
    rw [List.map_map]
    refine List.map_congr_left fun cell hcell => ?_
    rw [← h.kinds cell hcell]
    exact cell.value.canonicalText_toText
  unfold ofColumn normal
  simp only [htexts]
  split
  · rfl
  · rename_i hlink
    simp [hlink]

end ColumnDocument

/-- A named column of fitting cells can be added to a table that has no columns or as many rows. -/
theorem Table.addColumnWithCells_of_fits {t : Table} {c : Column} {rows : Nat} (h : c.Fits rows)
    (hrows : t.columns = [] ∨ t.rows = rows) :
    t.addColumnWithCells c.info c.cells =
      (.ok t.columns.length, { t with columns := t.columns ++ [c], rows := rows }) := by
  have hname : checkName c.info.name = .ok () := checkName_eq_ok.2 h.named
  have hcells : checkCells c.info 0 c.cells = .ok () :=
    checkCells_eq_ok.2 fun cell hcell => ⟨h.kinds cell hcell, h.subtypes cell hcell⟩
  unfold addColumnWithCells requiring
  simp only [hname, hcells, h.length]
  -- without columns the rows are those of the new column, and otherwise they agree already
  obtain hempty | hrows := hrows
  · simp only [hempty, List.isEmpty_nil, Bool.not_true, Bool.false_and, Bool.false_eq_true, if_false, if_true]
    rfl
  · simp only [hrows, ne_eq, not_true_eq_false, decide_false, Bool.and_false, Bool.false_eq_true, if_false]
    rw [← hrows]
    split
    · rfl
    · rfl

/-! ## Tables -/

namespace TableDocument

/-- As many rows as the first column has cells. -/
def rows (d : TableDocument) : Nat :=
  match d.columns with
  | [] => 0
  | c :: _ => c.cells.length

/-- All columns have a name, and for each row a text that spells a value. -/
def Acceptable (d : TableDocument) : Prop :=
  ∀ c ∈ d.columns, c.Acceptable d.rows

instance (d : TableDocument) : Decidable d.Acceptable :=
  inferInstanceAs (Decidable (∀ c ∈ d.columns, c.Acceptable d.rows))

theorem rows_of_forall {d : TableDocument} {rows : Nat} (h : ∀ c ∈ d.columns, c.Acceptable rows)
    (hne : d.columns ≠ []) : d.rows = rows := by
  unfold TableDocument.rows
  split
  · rename_i hnil
    exact absurd hnil hne
  · rename_i first rest hcons
    exact (h first (hcons ▸ List.mem_cons_self)).length

theorem acceptable_of_forall {d : TableDocument} {rows : Nat} (h : ∀ c ∈ d.columns, c.Acceptable rows) :
    d.Acceptable := by
  intro c hc
  rw [rows_of_forall h (List.ne_nil_of_mem hc)]
  exact h c hc

/-- Acceptable columns are added, with what their texts are read as in them. -/
theorem addColumns_of_acceptable {rows : Nat} {columns : List ColumnDocument}
    (h : ∀ c ∈ columns, c.Acceptable rows) :
    ∀ {t : Table}, t.columns = [] ∨ t.rows = rows →
      ∃ added, addColumns t columns =
          .ok { t with columns := t.columns ++ added, rows := if columns.isEmpty then t.rows else rows } ∧
        List.Forall₂ ColumnDocument.ReadAs columns added := by
  induction columns with
  | nil =>
    intro t _
    refine ⟨[], ?_, .nil⟩
    rw [List.append_nil]
    rfl
  | cons c rest ih =>
    intro t hrows
    rw [List.forall_mem_cons] at h
    obtain ⟨hc, hrest⟩ := h
    obtain ⟨cells, hread, hcells⟩ := ColumnDocument.readCells_of_spelled t.name hc.spelled 0
    have hreadAs : c.ReadAs ⟨c.info, cells⟩ := ⟨rfl, hcells⟩
    have hadd := Table.addColumnWithCells_of_fits (hreadAs.fits hc) hrows
    obtain ⟨added, hadded, hall⟩ :=
      -- After the first column the table has the rows of all the others.
      ih hrest (t := { t with columns := t.columns ++ [⟨c.info, cells⟩], rows := rows }) (.inr rfl)
    refine ⟨⟨c.info, cells⟩ :: added, ?_, .cons hreadAs hall⟩
    rw [addColumns, hread]
    simp only [bind, Except.bind, hadd, hadded, ite_self, List.append_assoc]
    rfl

/-- **An acceptable table is built**, with what its columns are read as. -/
theorem toTable_of_acceptable {d : TableDocument} (h : d.Acceptable) :
    ∃ columns, d.toTable =
        .ok ⟨d.name, columns, d.rows, d.workingDir, d.creation, d.linkPolicy.getD .standard⟩ ∧
      List.Forall₂ ColumnDocument.ReadAs d.columns columns := by
  obtain ⟨added, hadded, hall⟩ := addColumns_of_acceptable h
    (t := ⟨d.name, [], 0, d.workingDir, d.creation, d.linkPolicy.getD .standard⟩) (.inl rfl)
  have hrows : (if d.columns.isEmpty then 0 else d.rows) = d.rows := by
    unfold rows
    cases d.columns with
    | nil => rfl
    | cons c rest => rfl
  refine ⟨added, ?_, hall⟩
  rw [← hrows]
  exact hadded

/-- Columns that are read and stored again are in their normal form. -/
theorem map_ofColumn_of_readAs {columns : List ColumnDocument} {read : List Column}
    (h : List.Forall₂ ColumnDocument.ReadAs columns read) :
    read.map ColumnDocument.ofColumn = columns.map ColumnDocument.normal := by
  rw [← List.forall₂_eq_eq_eq, List.forall₂_map_left_iff, List.forall₂_map_right_iff]
  exact (h.imp fun _ _ hread => hread.ofColumn).flip

/-- **A table of the right shape is built anew from its stored form.** -/
theorem toTable_ofTable {t : Table} (h : t.Shape) {d : TableDocument}
    (hd : { d with children := [] } = ofTable t) : ∃ u, d.toTable = .ok u ∧ t.SameContent u := by
  obtain ⟨name, workingDir, creation, linkPolicy, columns, children⟩ := d
  unfold ofTable at hd
  injection hd with hname hworkingDir hcreation hlinkPolicy hcolumns
  subst hname hworkingDir hcreation hlinkPolicy hcolumns
  have hall : ∀ c ∈ t.columns.map ColumnDocument.ofColumn, c.Acceptable t.rows :=
    List.forall_mem_map.2 fun c hc => ColumnDocument.acceptable_ofColumn (h.fits c hc)
  obtain ⟨read, hbuilt, hread⟩ := toTable_of_acceptable (acceptable_of_forall (d := ⟨t.name, t.workingDir,
    t.creation, if t.linkPolicy = .standard then none else some t.linkPolicy, _, children⟩) hall)
  -- What is read is stored as it was, since what is stored once is normal.
  have hsame : read.map ColumnDocument.ofColumn = t.columns.map ColumnDocument.ofColumn := by
    rw [map_ofColumn_of_readAs hread, List.map_map]
    exact List.map_congr_left fun c hc => ColumnDocument.normal_ofColumn (h.fits c hc)
  refine ⟨_, hbuilt, rfl, rfl, rfl, getD_ite_none t.linkPolicy .standard, ?_, ?_, ?_⟩
  · have hinfos := congrArg (List.map ColumnDocument.info) hsame
    simpa [ColumnDocument.info_ofColumn, Function.comp_def, Table.infos] using hinfos
  · by_cases hempty : t.columns = []
    · rw [h.rowless hempty]
      simp [rows, hempty]
    · exact rows_of_forall hall (by simpa using hempty)
  · have htexts := congrArg (List.map ColumnDocument.cells) hsame
    simpa [ColumnDocument.ofColumn, Function.comp_def] using htexts

end TableDocument
end TableForest
