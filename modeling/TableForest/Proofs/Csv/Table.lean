import TableForest.Csv.Table
import TableForest.Proofs.Csv.Trim
import TableForest.Proofs.Document.Table

/-!
# Tables are read back

What a table is that is read from the records of another one: the names are the same, the fields are the texts of
the cells, and each column is of the kind that was inferred for it.

## The architecture

* **`ofRecords_eq`** takes the records apart into names and rows, **`addColumns_eq`** adds the columns.
* **`readTable_lines`** joins the two for any records of one length, and **`readTable_records`** says it of those
  under a header.
* **`readTable_written`** is about a table that was written, and **`read_as_text`** about one that is read without
  kinds.
-/

namespace TableForest.Csv

variable {options : ReadOptions}

theorem ne_nil_of_length_eq {α β : Type} {xs : List α} {ys : List β} (h : xs.length = ys.length)
    (hne : ys ≠ []) : xs ≠ [] := by
  rw [← List.length_pos_iff, h]
  exact List.length_pos_iff.2 hne

/-! ## Fields -/

theorem decodeFields_encode (start : Position) (index : Nat) (texts : List String) :
    decodeFields start index (texts.map Utf8.encode) = .ok texts := by
  induction texts generalizing index with
  | nil => rfl
  | cons s rest ih =>
    rw [List.map_cons, decodeFields, Utf8.decode?_encode]
    simp only [ih]
    rfl

/-- The text that is read from a field. -/
def readText (trim : Bool) (s : String) : String :=
  if trim then Text.trim s else s

theorem map_readText_false (texts : List String) : texts.map (readText false) = texts :=
  List.map_id _

theorem decodeHeader_encode (trim : Bool) {raw : RawRecord} {texts : List String}
    (h : raw.fields = texts.map Utf8.encode) : decodeHeader trim raw = .ok (texts.map (readText trim)) := by
  rw [decodeHeader, h, decodeFields_encode]
  cases trim with
  | true => rfl
  | false => exact congrArg Except.ok (map_readText_false texts).symm

/-- A record is read as its texts, which are trimmed before and after they are decoded. -/
theorem decodeRecord_encode (trim : Bool) {raw : RawRecord} {texts : List String}
    (h : raw.fields = texts.map Utf8.encode) : decodeRecord trim raw = .ok (texts.map (readText trim)) := by
  cases trim with
  | true =>
    have htrimmed : (texts.map Utf8.encode).map trimField =
        (texts.map fun s => String.ofList (trimChars s.toList)).map Utf8.encode := by
      simp [trimField_encode]
    rw [decodeRecord, if_pos rfl, h, htrimmed, decodeFields_encode]
    simp [Except.map, readText, Text.trim, trimBlanks_trimChars]
  | false =>
    rw [decodeRecord, if_neg Bool.false_ne_true, h, decodeFields_encode, map_readText_false]

theorem decodeRecords_encode (trim : Bool) {rows : List (List String)} {width : Nat}
    (hwidth : ∀ r ∈ rows, r.length = width) :
    ∀ {raws : List RawRecord}, raws.map RawRecord.fields = rows.map (·.map Utf8.encode) →
      decodeRecords trim width raws = .ok (rows.map (·.map (readText trim))) := by
  induction rows with
  | nil =>
    intro raws h
    rw [List.map_nil, List.map_eq_nil_iff] at h
    subst h
    rfl
  | cons r rest ih =>
    intro raws h
    obtain ⟨hr, hrest⟩ := List.forall_mem_cons.1 hwidth
    -- as many records as there are rows, each of them as wide as the header
    cases raws with
    | nil => simp at h
    | cons raw raws =>
      rw [List.map_cons, List.map_cons, List.cons.injEq] at h
      have hlength : ¬raw.fields.length ≠ width := by
        rw [h.1, List.length_map]
        exact fun hne => hne hr
      rw [decodeRecords, if_neg hlength, decodeRecord_encode trim h.1, ih hrest h.2]
      rfl

/-- The names and the rows of the lines of a file; the names stand in the first of them or are made up. -/
def Sheet.ofLines (options : ReadOptions) : List (List String) → Sheet
  | [] => ⟨[], []⟩
  | first :: rest =>
    if options.hasHeaders then
      ⟨columnNames (first.map (readText options.trim)), rest.map (·.map (readText options.trim))⟩
    else
      ⟨(List.range first.length).map defaultName, (first :: rest).map (·.map (readText options.trim))⟩

/-- Records of one length that hold text are read as lines. -/
theorem ofRecords_eq {lines : List (List String)} {width : Nat} (hwidth : ∀ line ∈ lines, line.length = width)
    {raws : List RawRecord} (h : raws.map RawRecord.fields = lines.map (·.map Utf8.encode)) :
    Sheet.ofRecords options raws = .ok (.ofLines options lines) := by
  cases lines with
  | nil =>
    rw [List.map_nil, List.map_eq_nil_iff] at h
    subst h
    rfl
  | cons header rows =>
    cases raws with
    | nil => simp at h
    | cons first rest =>
      -- with or without a header in front, the same records are decoded
      have hall := h
      rw [List.map_cons, List.map_cons, List.cons.injEq] at h
      obtain ⟨hheader, hrows⟩ := List.forall_mem_cons.1 hwidth
      have hcount : first.fields.length = header.length := by rw [h.1, List.length_map]
      cases hheaders : options.hasHeaders with
      | true =>
        simp only [Sheet.ofRecords, Sheet.ofLines, hheaders, if_true, decodeHeader_encode options.trim h.1,
          hcount.trans hheader, decodeRecords_encode options.trim hrows h.2]
        rfl
      | false =>
        simp only [Sheet.ofRecords, Sheet.ofLines, hheaders, Bool.false_eq_true, if_false, hcount, hheader,
          decodeRecords_encode options.trim hwidth hall]
        rfl

/-! ## Columns -/

/-- A column whose kind was inferred holds only values of that kind. -/
theorem kind_fieldValue {fields : List String} {s : String} (hs : s ∈ fields) :
    (fieldValue (inferKind fields) s).kind = inferKind fields := by
  unfold inferKind
  split
  · rfl
  · split
    · rename_i hall
      -- the kind was inferred because this field, too, could be read
      obtain ⟨n, hn⟩ := Option.isSome_iff_exists.1 (List.all_eq_true.1 hall s hs)
      simp [fieldValue, hn, Value.kind]
    · split
      · rename_i hall
        obtain ⟨x, hx⟩ := Option.isSome_iff_exists.1 (List.all_eq_true.1 hall s hs)
        simp [fieldValue, hx, Value.kind]
      · split
        · rename_i hall
          obtain ⟨b, hb⟩ := Option.isSome_iff_exists.1 (List.all_eq_true.1 hall s hs)
          simp [fieldValue, hb, Value.kind]
        · rfl

/-- The column that is read from some fields under a name. -/
def readColumn (infer : Bool) (name : String) (fields : List String) : Column :=
  let kind := if infer then inferKind fields else .text
  ⟨.ofKind name kind, fields.map fun s => ⟨fieldValue kind s, kind.defaultTag⟩⟩

theorem readColumn_fits (infer : Bool) {name : String} (hname : name ≠ "") (fields : List String) :
    (readColumn infer name fields).Fits fields.length where
  named := hname
  length := List.length_map _
  kinds := by
    intro cell hcell
    obtain ⟨s, hs, rfl⟩ := List.mem_map.1 hcell
    cases infer with
    | true => exact kind_fieldValue hs
    | false => rfl
  subtypes := by
    intro cell hcell
    obtain ⟨s, -, rfl⟩ := List.mem_map.1 hcell
    rfl

/-- Columns of one length are added one after the other. -/
theorem addColumns_eq {rows : Nat} {sheet : List (String × List String)}
    (hsheet : ∀ p ∈ sheet, p.1 ≠ "" ∧ p.2.length = rows) :
    ∀ {t : Table}, t.columns = [] ∨ t.rows = rows →
      addColumns options t sheet = .ok { t with
        columns := t.columns ++ sheet.map fun p => readColumn options.infer p.1 p.2
        rows := if sheet.isEmpty then t.rows else rows } := by
  induction sheet with
  | nil =>
    intro t _
    simp [addColumns]
  | cons p rest ih =>
    intro t hrows
    obtain ⟨⟨hname, hlength⟩, hrest⟩ := List.forall_mem_cons.1 hsheet
    -- the cells were made for the kind of the column, so they are taken
    have hfits := readColumn_fits options.infer hname p.2
    rw [hlength] at hfits
    have hadd : addFields options t p.1 p.2 = (.ok t.columns.length,
        { t with columns := t.columns ++ [readColumn options.infer p.1 p.2], rows := rows }) :=
      Table.addColumnWithCells_of_fits hfits hrows
    rw [addColumns, hadd]
    simp only
    rw [ih hrest (.inr rfl)]
    simp

/-! ## Tables -/

theorem defaultName_ne_empty (index : Nat) : defaultName index ≠ "" := by
  intro h
  have hlength := congrArg String.length h
  simp [defaultName] at hlength

/-- No column is without a name. -/
theorem ne_empty_of_mem_columnNames {header : List String} {name : String} (h : name ∈ columnNames header) :
    name ≠ "" := by
  obtain ⟨⟨given, index⟩, -, rfl⟩ := List.mem_map.1 h
  by_cases hempty : given.isEmpty = true
  · simp only [hempty, if_true]
    exact defaultName_ne_empty index
  · simp only [hempty]
    simpa using hempty

theorem columnNames_of_ne_empty {header : List String} (h : ∀ name ∈ header, name ≠ "") :
    columnNames header = header := by
  have hkept : ∀ p ∈ header.zipIdx, (if p.1.isEmpty then defaultName p.2 else p.1) = p.1 := by
    intro p hp
    exact if_neg (by simpa using h p.1 (List.fst_mem_of_mem_zipIdx hp))
  exact (List.map_congr_left hkept).trans (List.zipIdx_map_fst 0 header)

theorem length_columnNames (header : List String) : (columnNames header).length = header.length := by
  simp [columnNames]

theorem length_of_mem_columnsOf {width : Nat} {rows : List (List String)} {fields : List String}
    (h : fields ∈ columnsOf width rows) : fields.length = rows.length := by
  obtain ⟨i, -, rfl⟩ := List.mem_map.1 h
  exact List.length_map _

theorem ne_empty_of_mem_names {lines : List (List String)} {name : String}
    (h : name ∈ (Sheet.ofLines options lines).names) : name ≠ "" := by
  unfold Sheet.ofLines at h
  split at h
  · cases h
  · split at h
    · exact ne_empty_of_mem_columnNames h
    · obtain ⟨index, -, rfl⟩ := List.mem_map.1 h
      exact defaultName_ne_empty index

theorem length_names {first : List String} {rest : List (List String)} :
    (Sheet.ofLines options (first :: rest)).names.length = first.length := by
  rw [Sheet.ofLines]
  split
  · rw [length_columnNames, List.length_map]
  · rw [List.length_map, List.length_range]

/-- **Lines of one length are a table**, with a column for each field of the first of them. -/
theorem readTable_lines {bs : Bytes} {lines : List (List String)} {width : Nat} (hne : ∀ line ∈ lines, line ≠ [])
    (hwidth : ∀ line ∈ lines, line.length = width)
    (h : (records options.delimiter bs).map RawRecord.fields = lines.map (·.map Utf8.encode)) (name : String) :
    let sheet := Sheet.ofLines options lines
    readTable options name bs = .ok { Table.empty name with
      columns := (sheet.names.zip (columnsOf sheet.names.length sheet.rows)).map fun p =>
        readColumn options.infer p.1 p.2
      rows := sheet.rows.length } := by
  intro sheet
  -- the names are not empty, and each column has a field for every row
  have hsheet : ∀ p ∈ sheet.names.zip (columnsOf sheet.names.length sheet.rows),
      p.1 ≠ "" ∧ p.2.length = sheet.rows.length := fun p hp =>
    ⟨ne_empty_of_mem_names (List.of_mem_zip hp).1, length_of_mem_columnsOf (List.of_mem_zip hp).2⟩
  rw [readTable, ofRecords_eq hwidth h]
  show addColumns options (.empty name) (sheet.names.zip (columnsOf sheet.names.length sheet.rows)) = _
  rw [addColumns_eq hsheet (.inl rfl)]
  -- without records there is neither a header nor a row
  cases lines with
  | nil => rfl
  | cons first rest =>
    have hnames : sheet.names.length = first.length := length_names
    have hsome : (sheet.names.zip (columnsOf sheet.names.length sheet.rows)).isEmpty = false := by
      rw [List.isEmpty_eq_false_iff, ← List.length_pos_iff, List.length_zip, columnsOf, List.length_map,
        List.length_range, Nat.min_self, hnames]
      exact List.length_pos_iff.2 (hne first List.mem_cons_self)
    rw [hsome]
    simp [Table.empty]

/-- Under a header, and with the blanks kept, the rows are the lines behind the first. -/
theorem readTable_records (hheaders : options.hasHeaders = true) (htrim : options.trim = false) {bs : Bytes}
    {header : List String} {rows : List (List String)} (hheader : header ≠ [])
    (hwidth : ∀ r ∈ rows, r.length = header.length)
    (h : (records options.delimiter bs).map RawRecord.fields = (header :: rows).map (·.map Utf8.encode))
    (name : String) :
    readTable options name bs = .ok { Table.empty name with
      columns := ((columnNames header).zip (columnsOf header.length rows)).map fun p =>
        readColumn options.infer p.1 p.2
      rows := rows.length } := by
  have hlines : Sheet.ofLines options (header :: rows) = ⟨columnNames header, rows⟩ := by
    simp [Sheet.ofLines, hheaders, htrim, map_readText_false]
  have hne : ∀ line ∈ header :: rows, line ≠ [] :=
    List.forall_mem_cons.2 ⟨hheader, fun r hr => ne_nil_of_length_eq (hwidth r hr) hheader⟩
  have hread := readTable_lines hne (List.forall_mem_cons.2 ⟨rfl, hwidth⟩) h name
  simpa only [hlines, length_columnNames] using hread

/-- Without records there is no column. -/
theorem readTable_of_no_records {bs : Bytes} (h : records options.delimiter bs = []) (name : String) :
    readTable options name bs = .ok (.empty name) := by
  rw [readTable, h]
  rfl

/-! ## Tables that were written -/

/-- The texts of the cells, column by column. -/
def columnTexts (t : Table) : List (List String) :=
  t.columns.map (·.cells.map Cell.text)

/-- The rows of a table, read down the columns, are its columns. -/
theorem columnsOf_tableRows {t : Table} (h : t.Shape) :
    columnsOf t.columns.length (tableRows t) = columnTexts t := by
  apply List.ext_getElem
  · simp [columnsOf, columnTexts]
  · intro i hi _
    have hcolumn : i < t.columns.length := by simpa [columnsOf] using hi
    have hlength := (h.fits t.columns[i] (List.getElem_mem hcolumn)).length
    apply List.ext_getElem
    · simp [columnsOf, columnTexts, tableRows, hlength]
    · intro row hrow _
      have hlt : row < t.columns[i].cells.length := by
        rw [hlength]
        simpa [columnsOf, tableRows] using hrow
      simp [columnsOf, columnTexts, tableRows, rowTexts, hcolumn, hlt]

/-- A table that was written is read with its cells, whatever became of the names. -/
theorem readTable_tableRows (hheaders : options.hasHeaders = true) (htrim : options.trim = false) {t : Table}
    (ht : t.Shape) (hcolumns : t.columns ≠ []) {bs : Bytes} {header : List String}
    (hheader : header.length = t.columns.length)
    (h : (records options.delimiter bs).map RawRecord.fields =
      (header :: tableRows t).map (·.map Utf8.encode)) (name : String) :
    readTable options name bs = .ok { Table.empty name with
      columns := ((columnNames header).zip (columnTexts t)).map fun p => readColumn options.infer p.1 p.2
      rows := t.rows } := by
  have hne := ne_nil_of_length_eq hheader hcolumns
  rw [readTable_records hheaders htrim hne (fun r hr => (length_of_mem_tableRows hr).trans hheader.symm) h,
    hheader, columnsOf_tableRows ht, tableRows, List.length_map, List.length_range]

/-- The names of the columns, as they are written. -/
def tableNames (t : Table) : List String :=
  t.infos.map ColumnInfo.name

theorem length_tableNames (t : Table) : (tableNames t).length = t.columns.length := by
  simp [tableNames, Table.infos]

theorem ne_empty_of_mem_tableNames {t : Table} (ht : t.Shape) {name : String} (h : name ∈ tableNames t) :
    name ≠ "" := by
  obtain ⟨info, hinfo, rfl⟩ := List.mem_map.1 h
  obtain ⟨c, hc, rfl⟩ := List.mem_map.1 hinfo
  exact (ht.fits c hc).named

theorem ne_nil_of_mem_tableRows {t : Table} (hcolumns : t.columns ≠ []) {row : List String}
    (h : row ∈ tableRows t) : row ≠ [] :=
  ne_nil_of_length_eq (length_of_mem_tableRows h) hcolumns

theorem writeTable_eq {options : WriteOptions} (hheaders : options.headers = true) {t : Table} (ht : t.Shape) :
    writeTable options t =
      recordBytes options (tableNames t) ++ (tableRows t).flatMap (recordBytes options) := by
  simp [writeTable_of_shape ht, tableRecords, hheaders, tableNames]

/-- The records of a table that was written are its names and its rows, unless the first name is taken for the
mark of the file. -/
theorem fields_of_written {options : WriteOptions} (hread : options.Readable) (hheaders : options.headers = true)
    {t : Table} (ht : t.Shape) (hcolumns : t.columns ≠ [])
    (hmark : ∀ name, (tableNames t).head? = some name →
      name.toList.head? ≠ some markChar ∨ needsQuotes options name = true) :
    (records options.delimiter (writeTable options t)).map RawRecord.fields =
      (tableNames t :: tableRows t).map (·.map Utf8.encode) := by
  have hnames := ne_nil_of_length_eq (length_tableNames t) hcolumns
  have hwritten : dropMark (writeTable options t) =
      ((tableNames t :: tableRows t).flatMap (recordBytes options), 0) := by
    -- the first name decides whether the mark is taken off
    obtain ⟨first, more, hfirst⟩ := List.exists_cons_of_ne_nil hnames
    have hne : first ≠ "" := ne_empty_of_mem_tableNames ht (by simp [hfirst])
    rw [writeTable_eq hheaders ht, hfirst, dropMark_of_first hne (hmark first (by simp [hfirst])),
      List.flatMap_cons]
  refine @fields_records _ hread _ [] _ 0 (fun r hr => ?_) (.inl rfl) hwritten
  rcases List.mem_cons.1 hr with rfl | hr
  · exact hnames
  · exact ne_nil_of_mem_tableRows hcolumns hr

/-- The columns that are read have the names and the texts of those that were written. -/
theorem readTable_written {options : WriteOptions} (hread : options.Readable) (hheaders : options.headers = true)
    {t : Table} (ht : t.Shape) (hcolumns : t.columns ≠ [])
    (hmark : ∀ name, (tableNames t).head? = some name →
      name.toList.head? ≠ some markChar ∨ needsQuotes options name = true) (infer : Bool) (name : String) :
    readTable ⟨options.delimiter, true, false, infer⟩ name (writeTable options t) = .ok { Table.empty name with
      columns := t.columns.map fun c => readColumn infer c.info.name (c.cells.map Cell.text)
      rows := t.rows } := by
  have hfields := fields_of_written hread hheaders ht hcolumns hmark
  have hnames : columnNames (tableNames t) = t.columns.map fun c => c.info.name := by
    rw [columnNames_of_ne_empty fun n hn => ne_empty_of_mem_tableNames ht hn]
    simp [tableNames, Table.infos]
  have hrows := @readTable_tableRows ⟨options.delimiter, true, false, infer⟩ rfl rfl t ht hcolumns _ (tableNames t)
    (length_tableNames t) hfields name
  rw [hrows, hnames, columnTexts, List.zip_map', List.map_map]
  rfl

/-- **A table that is written and read without kinds says the same**: the columns have the same names in the same
order, there are as many rows, and all cells are texts, those of the cells that were written.  The delimiter may
be any byte but a quote or the end of a line, and the cells may hold anything. -/
theorem read_as_text {options : WriteOptions} (hread : options.Readable) (hheaders : options.headers = true)
    {t : Table} (ht : t.Shape) (hcolumns : t.columns ≠ [])
    (hmark : ∀ c, t.columns.head? = some c → c.info.name.toList.head? ≠ some markChar) (name : String) :
    ∃ u, readTable ⟨options.delimiter, true, false, false⟩ name (writeTable options t) = .ok u ∧
      u.infos = t.infos.map (fun info => .ofKind info.name .text) ∧
      u.rows = t.rows ∧
      (∀ c ∈ u.columns, ∀ cell ∈ c.cells, cell.kind = .text) ∧
      u.columns.map (·.cells.map Cell.text) = t.columns.map (·.cells.map Cell.text) := by
  -- the mark is taken off names, and the first of them does not start with it
  have hfirst : ∀ first, (tableNames t).head? = some first →
      first.toList.head? ≠ some markChar ∨ needsQuotes options first = true := by
    intro first hfirst
    simp only [tableNames, Table.infos, List.head?_map, Option.map_eq_some_iff] at hfirst
    obtain ⟨info, ⟨c, hc, rfl⟩, rfl⟩ := hfirst
    exact .inl (hmark c hc)
  refine ⟨_, readTable_written hread hheaders ht hcolumns hfirst false name, ?_, rfl, ?_, ?_⟩
  · simp [Table.infos, readColumn]
  · intro c hc cell hcell
    obtain ⟨old, -, rfl⟩ := List.mem_map.1 hc
    obtain ⟨s, -, rfl⟩ := List.mem_map.1 hcell
    rfl
  · rw [List.map_map]
    refine List.map_congr_left fun c _ => ?_
    simp [readColumn, fieldValue, Cell.text, Value.toText]

/-- Delimiters, quotes, line ends and a cell that would be a blank line. -/
theorem notes_read_as_text :
    let cells := ["x, \"y\"", "", "1\r\n2"].map fun s => Cell.mk (.text s) Kind.text.defaultTag
    let t := (Table.empty "notes").run [.addColumnWithCells (.ofKind "a,b" .text) cells]
    ∃ u, readTable ⟨0x2C, true, false, false⟩ "copy" (writeTable ⟨0x2C, true, .necessary, true⟩ t) = .ok u ∧
      u.infos.map ColumnInfo.name = ["a,b"] ∧ u.rows = 3 ∧
      u.columns.map (·.cells.map Cell.text) = [["x, \"y\"", "", "1\r\n2"]] := by
  intro cells t
  have hshape : t.Shape := (Table.Shape.empty "notes").run _
  have hcolumns : t.columns = [⟨.ofKind "a,b" .text, cells⟩] := by decide
  obtain ⟨u, hread, hinfos, hrows, -, htexts⟩ := @read_as_text ⟨0x2C, true, .necessary, true⟩
    ⟨⟨by decide, by decide⟩, .inl rfl⟩ rfl _ hshape (by simp [hcolumns]) (by
      intro c hc
      rw [hcolumns] at hc
      obtain rfl := Option.some.inj hc
      -- the delimiter is in quotes, since it stands in the name of the column
      decide) "copy"
  refine ⟨u, hread, ?_, hrows.trans (by decide), htexts.trans ?_⟩
  · rw [hinfos, Table.infos, hcolumns]
    rfl
  · rw [hcolumns]
    rfl

end TableForest.Csv
