import TableForest.Csv.Writer
import TableForest.Proofs.Table.Shape

/-!
# What is written of a table

The writer of CSV finds out on its way whether all records are of one length and whether all cells are there.
For a table that has its shape both are certain: **`encode_of_shape`** says that nothing stops the writer, and
that it leaves one record for the names of the columns and one for each row.
-/

namespace TableForest.Csv

/-- The texts in a row of a table. -/
def rowTexts (t : Table) (row : Nat) : List String :=
  t.columns.map fun c => (c.cells[row]?.map Cell.text).getD ""

/-- The rows of a table as texts. -/
def tableRows (t : Table) : List (List String) :=
  (List.range t.rows).map (rowTexts t)

/-- The names of the columns and the rows of a table, as they are written. -/
def tableRecords (options : WriteOptions) (t : Table) : List (List String) :=
  (if options.headers then [t.infos.map ColumnInfo.name] else []) ++ tableRows t

/-- A record as it is written. -/
def recordBytes (options : WriteOptions) (fields : List String) : Bytes :=
  closeRecord options ([options.delimiter].intercalate (fields.map (fieldBytes options)))

variable {options : WriteOptions} {t : Table}

theorem intercalate_cons (separator : Bytes) (field : Bytes) (rest : List Bytes) :
    separator.intercalate (field :: rest) = field ++ rest.flatMap (separator ++ ·) := by
  induction rest generalizing field with
  | nil => simp
  | cons next rest ih => rw [List.intercalate_cons_cons, ih, List.flatMap_cons]; simp

/-- What is written of the fields behind the first. -/
def moreBytes (options : WriteOptions) (more : List String) : Bytes :=
  more.flatMap fun s => options.delimiter :: fieldBytes options s

theorem recordBytes_cons (options : WriteOptions) (f : String) (more : List String) :
    recordBytes options (f :: more) = closeRecord options (fieldBytes options f ++ moreBytes options more) := by
  rw [recordBytes, List.map_cons, intercalate_cons, List.flatMap_map]
  rfl

theorem moreBytes_eq_nil {more : List String} : moreBytes options more = [] ↔ more = [] := by
  cases more with
  | nil => simp [moreBytes]
  | cons s more => simp [moreBytes]

/-- Behind the first field, each has a delimiter before it. -/
theorem encodeFields_texts (more : List String) :
    encodeFields options [options.delimiter] (more.map .ok) = (moreBytes options more, none) := by
  induction more with
  | nil => rfl
  | cons s more ih => simp [encodeFields, ih, moreBytes]

/-- A record of texts, as many as the first record has. -/
theorem encodeRecord_texts {width : Option Nat} {fields : List String}
    (hwidth : width.getD fields.length = fields.length) :
    encodeRecord options width (fields.map .ok) = (recordBytes options fields, none) := by
  have hcount : ¬(fields.map (Except.ok (ε := CsvError))).length ≠
      width.getD (fields.map (Except.ok (ε := CsvError))).length := by
    rw [List.length_map]
    exact fun hne => hne hwidth.symm
  rw [encodeRecord]
  cases fields with
  | nil => exact if_neg hcount
  | cons s more =>
    rw [List.map_cons, encodeFields, encodeFields_texts, recordBytes_cons]
    exact if_neg hcount

theorem encodeRecords_texts {width : Option Nat} {records : List (List String)} {n : Nat}
    (hlength : ∀ r ∈ records, r.length = n) (hwidth : width.getD n = n) :
    encodeRecords options width (records.map (·.map .ok)) =
      (records.flatMap (recordBytes options), none) := by
  induction records generalizing width with
  | nil => rfl
  | cons r rest ih =>
    obtain ⟨hr, hrest⟩ := List.forall_mem_cons.1 hlength
    rw [List.map_cons, encodeRecords, encodeRecord_texts (by rw [hr]; exact hwidth)]
    dsimp only
    rw [ih hrest (by simp [hr, hwidth])]
    rfl

theorem length_of_mem_tableRows {row : List String} (h : row ∈ tableRows t) :
    row.length = t.columns.length := by
  obtain ⟨i, -, rfl⟩ := List.mem_map.1 h
  exact List.length_map _

/-- **A table that has its shape is written to its end.** -/
theorem encode_of_shape (h : t.Shape) (options : WriteOptions) :
    encode options t = ((tableRecords options t).flatMap (recordBytes options), none) := by
  -- every column has a cell for each row
  have hrow : ∀ row ∈ List.range t.rows,
      t.columns.map (cellText row) = (rowTexts t row).map .ok := by
    intro row hrow
    rw [rowTexts, List.map_map]
    refine List.map_congr_left fun c hc => ?_
    have hlt : row < c.cells.length := by rw [(h.fits c hc).length]; exact List.mem_range.1 hrow
    simp [cellText, hlt]
  have hfields : tableFields options t = (tableRecords options t).map (·.map .ok) := by
    have hrows : (List.range t.rows).map (fun row => t.columns.map (cellText row)) =
        (tableRows t).map (·.map .ok) := by
      rw [tableRows, List.map_map]
      exact List.map_congr_left hrow
    rw [tableFields, tableRecords, hrows, List.map_append]
    split <;> simp
  -- what is written are texts, so no record can fail
  rw [encode, hfields]
  refine encodeRecords_texts (n := t.columns.length) (fun r hr => ?_) rfl
  rcases List.mem_append.1 hr with hheader | hrow
  · split at hheader
    · rw [List.mem_singleton.1 hheader, List.length_map, Table.infos, List.length_map]
    · cases hheader
  · exact length_of_mem_tableRows hrow

theorem writeTable_of_shape (h : t.Shape) (options : WriteOptions) :
    writeTable options t = (tableRecords options t).flatMap (recordBytes options) := by
  rw [writeTable, encode_of_shape h]

end TableForest.Csv
