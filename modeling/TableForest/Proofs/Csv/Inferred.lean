import TableForest.Proofs.Csv.Kind
import TableForest.Proofs.Csv.Table

/-!
# Tables of numbers are read back

A table of truth values, integers and numbers is written and read again, and the kinds of its columns are inferred.
The kinds may change: whole numbers become integers, and a column of numbers becomes text when one of them is not
finite or too great.  The texts stay, with two exceptions.

## The architecture

* **`readTexts_eq_iff`** is about one column: only a column that **loses the sign** of a zero changes its texts.
* **`exists_header`** finds the records of the table in its file, unless the only name is the mark of a file, which
  leaves a blank line: **`readTable_lone_mark`**.
-/

namespace TableForest

namespace Csv

open Binary

/-! ## Columns -/

/-- The texts of the column that is read from some fields. -/
def readTexts (fields : List String) : List String :=
  fields.map fun s => (fieldValue (inferKind fields) s).toText

theorem texts_readColumn (name : String) (fields : List String) :
    (readColumn true name fields).cells.map Cell.text = readTexts fields := by
  simp [readColumn, readTexts, Cell.text]

/-- What reads no empty text reads no column with one. -/
theorem any_isEmpty_eq_false {α : Type} {reader : String → Option α} (hempty : reader "" = none)
    {fields : List String} (h : ∀ s ∈ fields, (reader s).isSome = true) : fields.any String.isEmpty = false := by
  rw [List.any_eq_false]
  intro s hs hnone
  have hsome := h s hs
  rw [String.isEmpty_iff.1 hnone, hempty] at hsome
  cases hsome

/-- Fields that are all integers are read as integers. -/
theorem inferKind_of_integers {fields : List String} (hne : fields ≠ [])
    (h : ∀ s ∈ fields, (plainInteger? s).isSome = true) : inferKind fields = .integer := by
  have hcells : ¬(fields.isEmpty || fields.any String.isEmpty) = true := by
    simp [hne, any_isEmpty_eq_false (by decide) h]
  unfold inferKind
  rw [if_neg hcells, if_pos (List.all_eq_true.2 h)]

/-- Fields that are all numbers are read as integers or as numbers. -/
theorem inferKind_of_numbers {fields : List String} (hne : fields ≠ [])
    (h : ∀ s ∈ fields, (number? s).isSome = true) :
    inferKind fields = .integer ∨ inferKind fields = .numeric := by
  have hcells : ¬(fields.isEmpty || fields.any String.isEmpty) = true := by
    simp [hne, any_isEmpty_eq_false (by decide +kernel) h]
  unfold inferKind
  rw [if_neg hcells]
  split
  · exact .inl rfl
  · rw [if_pos (List.all_eq_true.2 h)]
    exact .inr rfl

theorem integers_of_inferKind {fields : List String} (h : inferKind fields = .integer) :
    ∀ s ∈ fields, (plainInteger? s).isSome = true := by
  unfold inferKind at h
  split at h
  · cases h
  · split at h
    · rename_i hall
      exact List.all_eq_true.1 hall
    · repeat' split at h
      all_goals cases h

theorem numbers_of_inferKind {fields : List String} (h : inferKind fields = .numeric) :
    ∀ s ∈ fields, (number? s).isSome = true := by
  unfold inferKind at h
  split at h
  · cases h
  · split at h
    · cases h
    · split at h
      · rename_i hall
        exact List.all_eq_true.1 hall
      · split at h
        · cases h
        · cases h

/-- A negative zero stands in the column, and the column is read as one of integers or of numbers. -/
structure LosesSign (c : Column) : Prop where
  zero : ∃ cell ∈ c.cells, cell.value = .numeric negativeZero
  read : (∀ cell ∈ c.cells, ∀ x, cell.value = .numeric x → ReadAsInteger x) ∨
    ∀ cell ∈ c.cells, ∀ x, cell.value = .numeric x → ReadAsNumber x

variable {c : Column} {t : Table}

theorem readTexts_eq_self {fields : List String} :
    readTexts fields = fields ↔ ∀ s ∈ fields, (fieldValue (inferKind fields) s).toText = s := by
  have hsame := List.map_inj_left (f := fun s => (fieldValue (inferKind fields) s).toText) (g := id) (l := fields)
  rwa [List.map_id] at hsame

/-- A column without numbers has no sign to lose. -/
theorem not_losesSign (hkinds : ∀ cell ∈ c.cells, cell.kind = c.info.kind) (hkind : c.info.kind ≠ .numeric) :
    ¬LosesSign c := by
  rintro ⟨⟨cell, hcell, hvalue⟩, -⟩
  apply hkind
  rw [← hkinds cell hcell, Cell.kind, hvalue, Value.kind]

theorem readTexts_logical (hkinds : ∀ cell ∈ c.cells, cell.kind = .logical) :
    readTexts (c.cells.map Cell.text) = c.cells.map Cell.text := by
  rw [readTexts_eq_self]
  intro s hs
  obtain ⟨cell, hcell, rfl⟩ := List.mem_map.1 hs
  obtain ⟨b, hb⟩ := Value.exists_logical (hkinds cell hcell)
  rw [Cell.text, hb]
  exact toText_fieldValue_logical b _

/-- Integers are inferred to be integers. -/
theorem readTexts_integer (hkinds : ∀ cell ∈ c.cells, cell.kind = .integer) :
    readTexts (c.cells.map Cell.text) = c.cells.map Cell.text := by
  -- every text is that of an integer, and it is read as the one that it came from
  have hread : ∀ s ∈ c.cells.map Cell.text, ∃ n, plainInteger? s = some n ∧ Decimal.intText n.toInt = s := by
    intro s hs
    obtain ⟨cell, hcell, rfl⟩ := List.mem_map.1 hs
    obtain ⟨n, hn⟩ := Value.exists_integer (hkinds cell hcell)
    rw [Cell.text, hn]
    exact ⟨n, plainInteger?_intText n, rfl⟩
  rw [readTexts_eq_self]
  intro s hs
  have hinteger : inferKind (c.cells.map Cell.text) = .integer := by
    refine inferKind_of_integers (List.ne_nil_of_mem hs) fun s hs => ?_
    obtain ⟨n, hn, -⟩ := hread s hs
    simp [hn]
  obtain ⟨n, hn, htext⟩ := hread s hs
  rw [hinteger, fieldValue, hn]
  exact htext

/-- A column of numbers is read as one of integers or of numbers. -/
theorem inferKind_numeric (hkinds : ∀ cell ∈ c.cells, cell.kind = .numeric) (hne : c.cells ≠ []) :
    inferKind (c.cells.map Cell.text) = .integer ∨ inferKind (c.cells.map Cell.text) = .numeric ↔
      (∀ cell ∈ c.cells, ∀ x, cell.value = .numeric x → ReadAsInteger x) ∨
        ∀ cell ∈ c.cells, ∀ x, cell.value = .numeric x → ReadAsNumber x := by
  -- the kind is inferred from the texts of the numbers, not from the numbers themselves
  have htext : ∀ cell ∈ c.cells, ∀ x, cell.value = .numeric x → cell.text = x.text cellNumber := by
    intro cell _ x hx
    rw [Cell.text, hx, Value.toText]
  have hmem : ∀ cell ∈ c.cells, cell.text ∈ c.cells.map Cell.text := fun _ => List.mem_map_of_mem
  constructor
  · rintro (hkind | hkind)
    · refine .inl fun cell hcell x hx => isSome_plainInteger?_text.1 ?_
      rw [← htext cell hcell x hx]
      exact integers_of_inferKind hkind _ (hmem cell hcell)
    · refine .inr fun cell hcell x hx => isSome_number?_text.1 ?_
      rw [← htext cell hcell x hx]
      exact numbers_of_inferKind hkind _ (hmem cell hcell)
  · rintro (hread | hread)
    · refine .inl (inferKind_of_integers (by simpa using hne) fun s hs => ?_)
      obtain ⟨cell, hcell, rfl⟩ := List.mem_map.1 hs
      obtain ⟨x, hx⟩ := Value.exists_numeric (hkinds cell hcell)
      rw [htext cell hcell x hx]
      exact isSome_plainInteger?_text.2 (hread cell hcell x hx)
    · refine inferKind_of_numbers (by simpa using hne) fun s hs => ?_
      obtain ⟨cell, hcell, rfl⟩ := List.mem_map.1 hs
      obtain ⟨x, hx⟩ := Value.exists_numeric (hkinds cell hcell)
      rw [htext cell hcell x hx]
      exact isSome_number?_text.2 (hread cell hcell x hx)

/-- **A column of numbers keeps its texts unless it loses the sign of a zero.** -/
theorem readTexts_numeric (hkinds : ∀ cell ∈ c.cells, cell.kind = .numeric) :
    readTexts (c.cells.map Cell.text) = c.cells.map Cell.text ↔ ¬LosesSign c := by
  rw [readTexts_eq_self]
  constructor
  · rintro htexts ⟨⟨cell, hcell, hzero⟩, hread⟩
    have htext : cell.text = negativeZero.text cellNumber := by rw [Cell.text, hzero, Value.toText]
    have hkind := (inferKind_numeric hkinds (List.ne_nil_of_mem hcell)).2 hread
    have hkept := htexts cell.text (List.mem_map_of_mem hcell)
    rw [htext] at hkept
    exact toText_fieldValue_negativeZero hkind hkept
  · intro hsign s hs
    obtain ⟨cell, hcell, rfl⟩ := List.mem_map.1 hs
    obtain ⟨x, hx⟩ := Value.exists_numeric (hkinds cell hcell)
    rw [Cell.text, hx, Value.toText]
    refine toText_fieldValue_numeric fun hzero => not_or.1 fun hkind => hsign ?_
    exact ⟨⟨cell, hcell, hzero ▸ hx⟩, (inferKind_numeric hkinds (List.ne_nil_of_mem hcell)).1 hkind⟩

/-- **A column of truth values, integers or numbers keeps its texts unless it loses the sign of a zero.** -/
theorem readTexts_eq_iff (hkinds : ∀ cell ∈ c.cells, cell.kind = c.info.kind)
    (hkind : c.info.kind = .logical ∨ c.info.kind = .integer ∨ c.info.kind = .numeric) :
    readTexts (c.cells.map Cell.text) = c.cells.map Cell.text ↔ ¬LosesSign c := by
  rcases hkind with hkind | hkind | hkind
  · have hsign := not_losesSign hkinds (by simp [hkind])
    rw [hkind] at hkinds
    exact iff_of_true (readTexts_logical hkinds) hsign
  · have hsign := not_losesSign hkinds (by simp [hkind])
    rw [hkind] at hkinds
    exact iff_of_true (readTexts_integer hkinds) hsign
  · rw [hkind] at hkinds
    exact readTexts_numeric hkinds

/-! ## Tables -/

/-- The records of a table that was written are a header and its rows, unless the only name is the mark of a file. -/
theorem exists_header {options : WriteOptions} (hread : options.Readable) (hheaders : options.headers = true)
    (ht : t.Shape) (hcolumns : t.columns ≠ []) (hmark : tableNames t ≠ [String.singleton markChar]) :
    ∃ header, header.length = t.columns.length ∧
      (records options.delimiter (writeTable options t)).map RawRecord.fields =
        (header :: tableRows t).map (·.map Utf8.encode) := by
  by_cases hfirst : ∀ name, (tableNames t).head? = some name →
      name.toList.head? ≠ some markChar ∨ needsQuotes options name = true
  · exact ⟨tableNames t, length_tableNames t, fields_of_written hread hheaders ht hcolumns hfirst⟩
  · -- the first name loses the mark, and more is left of the header
    push Not at hfirst
    obtain ⟨first, hhead, hchar, hplain⟩ := hfirst
    obtain ⟨cs, hcs⟩ := List.head?_eq_some_iff.1 hchar
    obtain ⟨more, hnames⟩ := List.head?_eq_some_iff.1 hhead
    have hstyle : options.quoteStyle = .necessary := by
      refine hread.2.resolve_right fun halways => hplain ?_
      simp [needsQuotes, halways]
    have hleft : ¬(cs = [] ∧ more = []) := by
      rintro ⟨rfl, rfl⟩
      apply hmark
      rw [hnames, ← String.ofList_toList (s := first), hcs]
      rfl
    have hbytes := recordBytes_of_mark hstyle hcs (by simpa using hplain) more
    rw [if_neg hleft] at hbytes
    refine ⟨String.ofList cs :: more, ?_, @fields_records _ hread _ [] _ 3 ?_ (.inl rfl) ?_⟩
    · rw [← length_tableNames t, hnames]
      rfl
    · intro r hr
      rcases List.mem_cons.1 hr with rfl | hr
      · exact List.cons_ne_nil _ _
      · exact ne_nil_of_mem_tableRows hcolumns hr
    · rw [writeTable_eq hheaders ht, hnames, hbytes, List.append_assoc, dropMark_append, List.flatMap_cons]
      rfl

/-- A file whose header is the mark has no header: the first row is taken for it. -/
theorem records_of_lone_mark (ht : t.Shape) (hcolumns : t.columns ≠ [])
    (hmark : tableNames t = [String.singleton markChar]) :
    (records WriteOptions.standard.delimiter (writeTable .standard t)).map RawRecord.fields =
      (tableRows t).map (·.map Utf8.encode) := by
  have hbytes := @recordBytes_of_mark .standard rfl (String.singleton markChar) [] rfl (by decide) []
  rw [if_pos ⟨rfl, rfl⟩] at hbytes
  refine @fields_records .standard ⟨⟨by decide, by decide⟩, .inl rfl⟩ _ (terminator .standard) _ 3 ?_ (.inr rfl) ?_
  · exact fun r hr => ne_nil_of_mem_tableRows hcolumns hr
  · rw [writeTable_eq rfl ht, hmark, hbytes, List.append_assoc, dropMark_append]

/-- Without its header the table is read with a row or a column less. -/
theorem readTable_lone_mark (ht : t.Shape) (hcolumns : t.columns ≠ [])
    (hmark : tableNames t = [String.singleton markChar]) {name : String} {u : Table}
    (hread : readTable .standard name (writeTable .standard t) = .ok u) (hrows : u.rows = t.rows) :
    u.columns = [] := by
  have hrecords := records_of_lone_mark ht hcolumns hmark
  -- the mark is all there is of the header, so the first row is taken in its place
  cases hrest : tableRows t with
  | nil =>
    rw [hrest, List.map_nil, List.map_eq_nil_iff] at hrecords
    have hempty := @readTable_of_no_records .standard _ hrecords name
    obtain rfl := Except.ok.inj (hempty.symm.trans hread)
    rfl
  | cons first rest =>
    have hlength : ∀ r ∈ tableRows t, r.length = t.columns.length := fun r => length_of_mem_tableRows
    have hsize : (tableRows t).length = t.rows := by simp [tableRows]
    rw [hrest] at hrecords hlength hsize
    obtain ⟨hfirst, hothers⟩ := List.forall_mem_cons.1 hlength
    have hless := @readTable_records .standard rfl rfl _ first rest (ne_nil_of_length_eq hfirst hcolumns)
      (fun r hr => (hothers r hr).trans hfirst.symm) hrecords name
    obtain rfl := Except.ok.inj (hless.symm.trans hread)
    -- one row is missing then, which the equal numbers of rows rule out
    have hcount : rest.length = rest.length + 1 := hrows.trans hsize.symm
    omega

/-- The names that are read decide nothing about the texts. -/
theorem texts_of_header {header : List String} (hlength : header.length = t.columns.length) :
    ((((columnNames header).zip (columnTexts t)).map fun p => readColumn true p.1 p.2).map
      (·.cells.map Cell.text)) = (columnTexts t).map readTexts := by
  have hcount : (columnTexts t).length ≤ (columnNames header).length := by
    rw [columnTexts, List.length_map, length_columnNames, hlength]
  calc (((columnNames header).zip (columnTexts t)).map fun p => readColumn true p.1 p.2).map (·.cells.map Cell.text)
    _ = ((columnNames header).zip (columnTexts t)).map (readTexts ∘ Prod.snd) := by
        rw [List.map_map]
        exact List.map_congr_left fun p _ => texts_readColumn p.1 p.2
    _ = (columnTexts t).map readTexts := by rw [← List.map_map, List.map_snd_zip hcount]

/-- The texts stay if they stay in each column. -/
theorem readTexts_columnTexts (ht : t.Shape)
    (hkinds : ∀ c ∈ t.columns, c.info.kind = .logical ∨ c.info.kind = .integer ∨ c.info.kind = .numeric) :
    (columnTexts t).map readTexts = columnTexts t ↔ ∀ c ∈ t.columns, ¬LosesSign c := by
  rw [columnTexts, List.map_map, List.map_inj_left]
  refine forall_congr' fun c => forall_congr' fun hc => ?_
  exact readTexts_eq_iff (ht.fits c hc).kinds (hkinds c hc)

/-- **When a table of truth values, integers and numbers is read back**, with as many rows and with the texts of its
cells: always, except that a column may lose the sign of a zero, and that a name that is the mark of a file may not
stand alone. -/
theorem read_back_iff (ht : t.Shape) (hcolumns : t.columns ≠ [])
    (hkinds : ∀ c ∈ t.columns, c.info.kind = .logical ∨ c.info.kind = .integer ∨ c.info.kind = .numeric)
    (name : String) :
    (∃ u, readTable .standard name (writeTable .standard t) = .ok u ∧ u.rows = t.rows ∧
      u.columns.map (·.cells.map Cell.text) = t.columns.map (·.cells.map Cell.text)) ↔
      (∀ c ∈ t.columns, ¬LosesSign c) ∧ tableNames t ≠ [String.singleton markChar] := by
  -- a header that is nothing but the mark loses a row, and every other one is read as it was written
  by_cases hmark : tableNames t = [String.singleton markChar]
  · refine iff_of_false ?_ fun h => h.2 hmark
    rintro ⟨u, hread, hrows, htexts⟩
    rw [readTable_lone_mark ht hcolumns hmark hread hrows, List.map_nil, eq_comm, List.map_eq_nil_iff] at htexts
    exact hcolumns htexts
  · obtain ⟨header, hlength, hrecords⟩ := @exists_header t .standard ⟨⟨by decide, by decide⟩, .inl rfl⟩ rfl ht
      hcolumns hmark
    have hread := @readTable_tableRows .standard rfl rfl t ht hcolumns _ header hlength hrecords name
    have htexts := texts_of_header (t := t) hlength
    refine ⟨fun ⟨u, hu, _, hsame⟩ => ⟨?_, hmark⟩, fun hsigns => ⟨_, hread, rfl, ?_⟩⟩
    · obtain rfl := Except.ok.inj (hread.symm.trans hu)
      exact (readTexts_columnTexts ht hkinds).1 (htexts.symm.trans hsame)
    · exact htexts.trans ((readTexts_columnTexts ht hkinds).2 hsigns.1)

/-- A negative zero keeps its sign beside what is no number, since the column is read as text. -/
theorem signed_zero_beside_nan :
    let cells := [negativeZero, .nan false].map fun x => Cell.mk (.numeric x) Kind.numeric.defaultTag
    let t := (Table.empty "numbers").run [.addColumnWithCells (.ofKind "x" .numeric) cells]
    ∃ u, readTable .standard "copy" (writeTable .standard t) = .ok u ∧ u.rows = 2 ∧
      u.columns.map (·.cells.map Cell.text) = [["-0", "NaN"]] := by
  intro cells t
  have hshape : t.Shape := (Table.Shape.empty "numbers").run _
  have hcolumns : t.columns = [⟨.ofKind "x" .numeric, cells⟩] := by decide
  -- the sign would only be lost beside integers or numbers, and the other cell is neither
  have hsigns : ∀ c ∈ t.columns, ¬LosesSign c := by
    intro c hc hlost
    rw [hcolumns, List.mem_singleton] at hc
    subst hc
    have hnan : (⟨.numeric (.nan false), Kind.numeric.defaultTag⟩ : Cell) ∈ cells :=
      List.mem_cons_of_mem _ (List.mem_singleton_self _)
    rcases hlost.read with hread | hread
    · obtain ⟨n, hn, -⟩ := hread _ hnan _ rfl
      exact absurd (fraction_of_writtenInteger? hn).1 (by decide)
    · exact absurd (hread _ hnan _ rfl).1 (by decide)
  have hkinds : ∀ c ∈ t.columns, c.info.kind = .logical ∨ c.info.kind = .integer ∨ c.info.kind = .numeric := by
    intro c hc
    rw [hcolumns, List.mem_singleton] at hc
    subst hc
    exact .inr (.inr rfl)
  obtain ⟨u, hread, hrows, htexts⟩ :=
    (read_back_iff hshape (by simp [hcolumns]) hkinds "copy").2 ⟨hsigns, by decide⟩
  refine ⟨u, hread, hrows.trans (by decide), htexts.trans ?_⟩
  rw [hcolumns]
  decide +kernel

/-- Alone it is read as an integer, and is a zero without a sign. -/
theorem signed_zero_alone :
    let cells := [Cell.mk (.numeric negativeZero) Kind.numeric.defaultTag]
    let t := (Table.empty "numbers").run [.addColumnWithCells (.ofKind "x" .numeric) cells]
    t.Shape ∧ t.columns.map (·.cells.map Cell.text) = [["-0"]] ∧
      ∃ u, readTable .standard "copy" (writeTable .standard t) = .ok u ∧
        u.columns.map (·.cells.map Cell.text) = [["0"]] := by
  intro cells t
  have hshape : t.Shape := (Table.Shape.empty "numbers").run _
  have hcolumns : t.columns = [⟨.ofKind "x" .numeric, cells⟩] := by decide
  -- a header of one letter is no mark
  have hplain : ∀ name, (tableNames t).head? = some name →
      name.toList.head? ≠ some markChar ∨ needsQuotes .standard name = true := by
    intro name hname
    obtain rfl : "x" = name := Option.some.inj hname
    exact .inl (by decide)
  have hread := readTable_written ⟨⟨by decide, by decide⟩, .inl rfl⟩ rfl hshape (by simp [hcolumns]) hplain true "copy"
  refine ⟨hshape, by rw [hcolumns]; decide +kernel, _, hread, ?_⟩
  rw [hcolumns]
  decide +kernel

end Csv
end TableForest
