import TableForest.Proofs.Csv.Grammar
import TableForest.Proofs.Csv.Inferred

/-!
# What is made of a file

Any file whose records hold texts and are of one length is read as a table: a column for each field of the first
record, a row for each record of data, and in each cell the value of its own field under the kind that was inferred
from all fields of the column.

## The architecture

* **`Splits`** is all that is asked of a file, **`Infers`** says which kind a column has, and **`HoldsField`** which
  value a cell has.
* **`ne_nil_of_mem_records`**: no record is without fields, so a file with records has columns for its rows.
* **`infers_inferKind`** and **`holdsField_fieldValue`** decide one column apart, and agree because both refer to the
  same grammars; **`readTable_of_splits`** joins them.
* A column without fields satisfies every condition on its fields; it is text (**`header_alone_is_text`**).
-/

namespace TableForest.Csv

/-! ## What is expected -/

/-- The records of a file are lines of texts that are all of one length. -/
structure Splits (options : ReadOptions) (bs : Bytes) (lines : List (List String)) : Prop where
  texts : (records options.delimiter bs).map RawRecord.fields = lines.map (·.map Utf8.encode)
  even : ∀ line ∈ lines, ∀ other ∈ lines, line.length = other.length

/-- The lines behind the header, if there is one, with the blanks at the ends of their texts taken away if that is
asked for. -/
def dataRows (options : ReadOptions) (lines : List (List String)) : List (List String) :=
  (if options.hasHeaders then lines.tail else lines).map (·.map (readText options.trim))

/-- The fields are those at an index of the rows: every row has one there. -/
def FieldsAt (i : Nat) (rows : List (List String)) (fields : List String) : Prop :=
  List.Forall₂ (fun row s => row[i]? = some s) rows fields

/-- The kind of a column with these fields is the first that fits all of them. -/
structure Infers (fields : List String) (kind : Kind) : Prop where
  integer : kind = .integer ↔ fields ≠ [] ∧ ∀ s ∈ fields, ∃ n, SpellsInteger s n
  numeric : kind = .numeric ↔ kind ≠ .integer ∧ fields ≠ [] ∧ ∀ s ∈ fields, ∃ x, SpellsNumber s x
  logical : kind = .logical ↔
    kind ≠ .integer ∧ kind ≠ .numeric ∧ fields ≠ [] ∧ ∀ s ∈ fields, ∃ b, SpellsWord s b
  text : kind = .text ↔ kind ≠ .integer ∧ kind ≠ .numeric ∧ kind ≠ .logical
  of_empty : "" ∈ fields → kind = .text

/-- The value of a field under a kind. -/
def HoldsField (kind : Kind) (s : String) (v : Value) : Prop :=
  match kind with
  | .integer => ∃ n, v = .integer n ∧ SpellsInteger s n
  | .numeric => ∃ x, v = .numeric x ∧ SpellsNumber s x ∧ ∀ n, SpellsInteger s n → x.value = n.toInt
  | .logical => ∃ b, v = .logical b ∧ SpellsWord s b
  | .text => v = .text s
  | .fileLink => False

/-- A column that is made of these fields. -/
structure ReadFrom (infer : Bool) (fields : List String) (c : Column) : Prop where
  kind : if infer then Infers fields c.info.kind else c.info.kind = .text
  cells : List.Forall₂ (fun s cell => HoldsField c.info.kind s cell.value) fields c.cells

/-! ## Records have fields -/

namespace Scanner

/-- No record is without fields. -/
def Filled (s : Scanner) : Prop :=
  ∀ r ∈ s.records, r.fields ≠ []

variable {s : Scanner}

theorem Filled.endRecord (h : s.Filled) (next : ScanState) : (s.endRecord next).Filled :=
  List.forall_mem_cons.2 ⟨by simp, h⟩

theorem Filled.stepPlain (h : s.Filled) (d b : UInt8) : (s.stepPlain d b).Filled := by
  unfold Scanner.stepPlain
  split
  · exact h
  · split
    · exact h.endRecord _
    · exact h

theorem Filled.stepStart (h : s.Filled) (d b : UInt8) : (s.stepStart d b).Filled := by
  unfold Scanner.stepStart
  split
  · exact h
  · exact h.stepPlain d b

theorem Filled.stepRecord (h : s.Filled) (d b : UInt8) : (s.stepRecord d b).Filled := by
  unfold Scanner.stepRecord
  split
  · exact h
  · exact h.stepStart d b

/-- A byte ends a record with its last field or adds nothing to the records. -/
theorem Filled.step (h : s.Filled) (d b : UInt8) : (s.step d b).Filled := by
  -- counting a byte changes no field, and the state alone says which rule comes next
  have hcounted : ({ s with byte := s.byte + 1, line := if b = lineFeed then s.line + 1 else s.line }).Filled := h
  unfold Scanner.step
  generalize ({ s with byte := s.byte + 1, line := if b = lineFeed then s.line + 1 else s.line } : Scanner) = t
    at hcounted
  unfold dispatch
  split
  · exact hcounted.stepRecord d b
  · exact hcounted.stepStart d b
  · exact hcounted.stepPlain d b
  · split
    · exact hcounted
    · exact hcounted
  · split
    · exact hcounted
    · exact hcounted.stepPlain d b
  · exact hcounted.stepRecord d b

theorem Filled.scan (d : UInt8) (bs : Bytes) : ∀ {s : Scanner}, s.Filled → (scan d s bs).Filled := by
  induction bs with
  | nil => exact fun h => h
  | cons b rest ih => exact fun h => ih (h.step d b)

theorem Filled.finish (h : s.Filled) : ∀ r ∈ s.finish, r.fields ≠ [] := by
  have hended := h.endRecord .startRecord
  unfold Scanner.finish
  split
  all_goals
    intro r hr
    first
    | exact h r (List.mem_reverse.1 hr)
    | exact hended r (List.mem_reverse.1 hr)

end Scanner

theorem ne_nil_of_mem_records {d : UInt8} {bs : Bytes} {r : RawRecord} (h : r ∈ records d bs) : r.fields ≠ [] := by
  have hinitial : (Scanner.initial (dropMark bs).2).Filled := fun _ hr => nomatch hr
  exact (hinitial.scan d (dropMark bs).1).finish r h

/-! ## Columns -/

theorem isSome_plainInteger?_iff {s : String} : (plainInteger? s).isSome = true ↔ ∃ n, SpellsInteger s n := by
  simp only [Option.isSome_iff_exists, plainInteger?_eq_some_iff]

theorem isSome_number?_iff {s : String} : (number? s).isSome = true ↔ ∃ x, SpellsNumber s x := by
  simp only [Option.isSome_iff_exists, number?_eq_some_iff]

theorem isSome_word?_iff {s : String} : (word? s).isSome = true ↔ ∃ b, SpellsWord s b := by
  simp only [Option.isSome_iff_exists, word?_eq_some_iff]

/-- No field is asked for twice: an empty one fails every reader as well. -/
theorem inferKind_of_ne_nil {fields : List String} (hne : fields ≠ []) :
    inferKind fields =
      if fields.all fun s => (plainInteger? s).isSome then .integer
      else if fields.all fun s => (number? s).isSome then .numeric
      else if fields.all fun s => (word? s).isSome then .logical
      else .text := by
  -- the empty text is no value of any kind, so a column that has one is text either way
  have hrefused : ∀ {α : Type} (reader : String → Option α), reader "" = none →
      fields.any String.isEmpty = true → (fields.all fun s => (reader s).isSome) = false := by
    intro α reader hreader hany
    refine Bool.eq_false_iff.2 fun hall => ?_
    rw [any_isEmpty_eq_false hreader (List.all_eq_true.1 hall)] at hany
    cases hany
  unfold inferKind
  by_cases hany : fields.any String.isEmpty = true
  · rw [if_pos (by rw [hany, Bool.or_true]), hrefused plainInteger? (by decide) hany,
      hrefused number? (by decide +kernel) hany, hrefused word? (by decide) hany]
    rfl
  · rw [if_neg (by simpa [hne] using hany)]

/-- **The kind of a column is the first that fits all its fields.** -/
theorem infers_inferKind (fields : List String) : Infers fields (inferKind fields) := by
  by_cases hne : fields = []
  · subst hne
    refine ⟨?_, ?_, ?_, ?_, fun h => nomatch h⟩
    all_goals simp [inferKind]
  -- the tests of the reader say what the grammar says, in the same order
  · have hinteger : (fields.all fun s => (plainInteger? s).isSome) = true ↔ ∀ s ∈ fields, ∃ n, SpellsInteger s n := by
      simp only [List.all_eq_true, isSome_plainInteger?_iff]
    have hnumeric : (fields.all fun s => (number? s).isSome) = true ↔ ∀ s ∈ fields, ∃ x, SpellsNumber s x := by
      simp only [List.all_eq_true, isSome_number?_iff]
    have hlogical : (fields.all fun s => (word? s).isSome) = true ↔ ∀ s ∈ fields, ∃ b, SpellsWord s b := by
      simp only [List.all_eq_true, isSome_word?_iff]
    have hempty : "" ∈ fields → inferKind fields = .text := by
      intro hmem
      unfold inferKind
      rw [if_pos]
      simp only [Bool.or_eq_true, List.any_eq_true]
      exact .inr ⟨"", hmem, rfl⟩
    have hkind := inferKind_of_ne_nil hne
    -- from here on the kind is known by nothing but these tests
    generalize inferKind fields = kind at hkind hempty
    by_cases hi : ∀ s ∈ fields, ∃ n, SpellsInteger s n
    · rw [if_pos (hinteger.2 hi)] at hkind
      subst hkind
      exact ⟨iff_of_true rfl ⟨hne, hi⟩, iff_of_false nofun fun h => h.1 rfl, iff_of_false nofun fun h => h.1 rfl,
        iff_of_false nofun fun h => h.1 rfl, hempty⟩
    · rw [if_neg (mt hinteger.1 hi)] at hkind
      have hinot : ¬(fields ≠ [] ∧ ∀ s ∈ fields, ∃ n, SpellsInteger s n) := fun h => hi h.2
      by_cases hx : ∀ s ∈ fields, ∃ x, SpellsNumber s x
      · rw [if_pos (hnumeric.2 hx)] at hkind
        subst hkind
        exact ⟨iff_of_false nofun hinot, iff_of_true rfl ⟨nofun, hne, hx⟩, iff_of_false nofun fun h => h.2.1 rfl,
          iff_of_false nofun fun h => h.2.1 rfl, hempty⟩
      · rw [if_neg (mt hnumeric.1 hx)] at hkind
        by_cases hw : ∀ s ∈ fields, ∃ b, SpellsWord s b
        · rw [if_pos (hlogical.2 hw)] at hkind
          subst hkind
          exact ⟨iff_of_false nofun hinot, iff_of_false nofun fun h => hx h.2.2,
            iff_of_true rfl ⟨nofun, nofun, hne, hw⟩, iff_of_false nofun fun h => h.2.2 rfl, hempty⟩
        · rw [if_neg (mt hlogical.1 hw)] at hkind
          subst hkind
          exact ⟨iff_of_false nofun hinot, iff_of_false nofun fun h => hx h.2.2,
            iff_of_false nofun fun h => hw h.2.2.2, iff_of_true rfl ⟨nofun, nofun, nofun⟩, hempty⟩

/-- **Every field of a column has a value of the kind that was inferred.** -/
theorem holdsField_fieldValue {fields : List String} {s : String} (hs : s ∈ fields) :
    HoldsField (inferKind fields) s (fieldValue (inferKind fields) s) := by
  have hinfers := infers_inferKind fields
  generalize inferKind fields = kind at hinfers
  -- a column of a kind has only fields that spell values of it
  cases kind with
  | integer =>
    obtain ⟨n, hn⟩ := (hinfers.integer.1 rfl).2 s hs
    exact ⟨n, by rw [fieldValue, plainInteger?_eq_some_iff.2 hn]; rfl, hn⟩
  | numeric =>
    obtain ⟨x, hx⟩ := (hinfers.numeric.1 rfl).2.2 s hs
    exact ⟨x, by rw [fieldValue, number?_eq_some_iff.2 hx]; rfl, hx, fun n => value_of_spellsInteger hx⟩
  | logical =>
    obtain ⟨b, hb⟩ := (hinfers.logical.1 rfl).2.2.2 s hs
    exact ⟨b, by rw [fieldValue, word?_eq_some_iff.2 hb]; rfl, hb⟩
  | text => exact rfl
  | fileLink =>
    -- a column that was read holds no links
    have htext : Kind.fileLink = .text := hinfers.text.2 (by decide)
    cases htext

theorem readFrom_readColumn (infer : Bool) (name : String) (fields : List String) :
    ReadFrom infer fields (readColumn infer name fields) := by
  refine ⟨?_, ?_⟩
  · cases infer with
    | true => exact infers_inferKind fields
    | false => exact rfl
  · show List.Forall₂ _ fields (fields.map _)
    rw [List.forall₂_map_right_iff, List.forall₂_same]
    intro s hs
    cases infer with
    | true => exact holdsField_fieldValue hs
    | false => exact rfl

/-! ## Tables -/

variable {options : ReadOptions} {bs : Bytes} {lines : List (List String)}

theorem Splits.ne_nil (h : Splits options bs lines) : ∀ line ∈ lines, line ≠ [] := by
  intro line hline hnil
  have hmem : line.map Utf8.encode ∈ (records options.delimiter bs).map RawRecord.fields := by
    rw [h.texts]
    exact List.mem_map_of_mem hline
  obtain ⟨r, hr, hfields⟩ := List.mem_map.1 hmem
  exact ne_nil_of_mem_records hr (by rw [hfields, hnil, List.map_nil])

theorem rows_ofLines : (Sheet.ofLines options lines).rows = dataRows options lines := by
  cases lines with
  | nil => cases h : options.hasHeaders <;> simp [Sheet.ofLines, dataRows, h]
  | cons first rest => cases h : options.hasHeaders <;> simp [Sheet.ofLines, dataRows, h]

theorem length_of_mem_dataRows {width : Nat} (hwidth : ∀ line ∈ lines, line.length = width) {row : List String}
    (h : row ∈ dataRows options lines) : row.length = width := by
  obtain ⟨line, hline, rfl⟩ := List.mem_map.1 h
  rw [List.length_map]
  split at hline
  · exact hwidth line (List.mem_of_mem_tail hline)
  · exact hwidth line hline

theorem fieldsAt_of_columnsOf {width i : Nat} {rows : List (List String)} (hwidth : ∀ row ∈ rows, row.length = width)
    {fields : List String} (h : (columnsOf width rows)[i]? = some fields) : FieldsAt i rows fields := by
  have hi : i < width := by
    have hlt := (List.getElem?_eq_some_iff.1 h).1
    rwa [columnsOf, List.length_map, List.length_range] at hlt
  rw [columnsOf, List.getElem?_map, List.getElem?_range hi] at h
  obtain rfl := Option.some.inj h
  rw [FieldsAt, List.forall₂_map_right_iff, List.forall₂_same]
  intro row hrow
  have hlt : i < row.length := by rwa [hwidth row hrow]
  rw [List.getD_eq_getElem?_getD, List.getElem?_eq_getElem hlt, Option.getD_some]

/-- **Every file of records of one length is read**, whatever the delimiter is and whether there is a header, blanks
are taken away and kinds are inferred. -/
theorem readTable_of_splits (h : Splits options bs lines) (name : String) :
    ∃ t, readTable options name bs = .ok t ∧ t.Shape ∧
      t.columns.length = (lines.head?.map List.length).getD 0 ∧
      t.rows = (dataRows options lines).length ∧
      ∀ (i : Nat) (c : Column), t.columns[i]? = some c → ∃ fields,
        FieldsAt i (dataRows options lines) fields ∧ ReadFrom options.infer fields c := by
  obtain ⟨width, hwidth, hhead⟩ : ∃ width, (∀ line ∈ lines, line.length = width) ∧
      width = (lines.head?.map List.length).getD 0 := by
    cases lines with
    | nil => exact ⟨0, nofun, rfl⟩
    | cons first rest => exact ⟨first.length, fun line hline => h.even line hline first List.mem_cons_self, rfl⟩
  have hnames : (Sheet.ofLines options lines).names.length = width := by
    rw [hhead]
    cases lines with
    | nil => rfl
    | cons first rest => exact length_names
  have hread := readTable_lines h.ne_nil hwidth h.texts name
  simp only [rows_ofLines, hnames] at hread
  refine ⟨_, hread, ⟨fun c hc => ?_, fun hnone => ?_⟩, ?_, rfl, ?_⟩
  · obtain ⟨⟨title, fields⟩, hp, rfl⟩ := List.mem_map.1 hc
    have hfits := readColumn_fits options.infer (ne_empty_of_mem_names (List.of_mem_zip hp).1) fields
    rwa [length_of_mem_columnsOf (List.of_mem_zip hp).2] at hfits
  · -- without columns the first record would have no field, so there is no record
    have hwidth' := congrArg List.length hnone
    rw [List.length_map, List.length_zip, hnames, columnsOf, List.length_map, List.length_range, Nat.min_self,
      List.length_nil] at hwidth'
    cases lines with
    | nil => simp [dataRows]
    | cons first rest =>
      have hfirst := List.length_pos_iff.2 (h.ne_nil first List.mem_cons_self)
      rw [hwidth first List.mem_cons_self] at hfirst
      omega
  · rw [List.length_map, List.length_zip, hnames, columnsOf, List.length_map, List.length_range, Nat.min_self, hhead]
  · intro i c hc
    obtain ⟨⟨title, fields⟩, hp, rfl⟩ := Option.map_eq_some_iff.1 (List.getElem?_map ▸ hc)
    have hfields := (List.getElem?_zip_eq_some.1 hp).2
    exact ⟨fields, fieldsAt_of_columnsOf (fun row => length_of_mem_dataRows hwidth) hfields,
      readFrom_readColumn options.infer title fields⟩

/-- Integers and a number with a point, behind blanks. -/
theorem weights_are_numeric :
    let options : ReadOptions := ⟨0x3B, true, true, true⟩
    let bs := Utf8.ascii "id;weight\n1; 7\n2;\t-2.5\n"
    Splits options bs [["id", "weight"], ["1", " 7"], ["2", "\t-2.5"]] ∧
      ∃ t, readTable options "scan" bs = .ok t ∧ t.columns.length = 2 ∧ t.rows = 2 ∧
        ∃ c, t.columns[1]? = some c ∧ c.info.kind = .numeric := by
  intro options bs
  have hsplits : Splits options bs [["id", "weight"], ["1", " 7"], ["2", "\t-2.5"]] :=
    ⟨by decide +kernel, by decide⟩
  obtain ⟨t, hread, -, hcolumns, hrows, hfields⟩ := readTable_of_splits hsplits "scan"
  have hlength : t.columns.length = 2 := hcolumns
  have hcolumn : t.columns[1]? = some t.columns[1] := List.getElem?_eq_getElem (by omega)
  refine ⟨hsplits, t, hread, hcolumns, hrows.trans (by decide), t.columns[1], hcolumn, ?_⟩
  obtain ⟨fields, hat, hfrom⟩ := hfields 1 t.columns[1] hcolumn
  -- blanks and tabs around the fields are gone, and the header is not among the rows
  have hdata : dataRows options [["id", "weight"], ["1", " 7"], ["2", "\t-2.5"]] = [["1", "7"], ["2", "-2.5"]] := by
    decide +kernel
  rw [hdata] at hat
  obtain ⟨first, rest, hfirst, hrest, rfl⟩ := List.forall₂_cons_left_iff.1 hat
  obtain ⟨second, others, hsecond, hothers, rfl⟩ := List.forall₂_cons_left_iff.1 hrest
  obtain rfl := List.forall₂_nil_left_iff.1 hothers
  obtain rfl : "7" = first := Option.some.inj hfirst
  obtain rfl : "-2.5" = second := Option.some.inj hsecond
  -- two fields, one of them with a point, so the column is of numbers and not of integers
  have hinfers : Infers ["7", "-2.5"] t.columns[1].info.kind := hfrom.kind
  refine hinfers.numeric.2 ⟨fun hinteger => ?_, by decide, fun s hs => isSome_number?_iff.1 ?_⟩
  · have hpoint := isSome_plainInteger?_iff.2 ((hinfers.integer.1 hinteger).2 "-2.5" (by decide))
    exact absurd hpoint (by decide +kernel)
  · revert s
    decide +kernel

/-- **A column without fields is text**, although all its fields are numbers. -/
theorem header_alone_is_text :
    let bs := Utf8.ascii "a\n"
    Splits .standard bs [["a"]] ∧
      ∃ t c, readTable .standard "t" bs = .ok t ∧ t.columns[0]? = some c ∧ FieldsAt 0 (dataRows .standard [["a"]]) [] ∧
        c.info.kind = .text ∧
        ¬(c.info.kind = .numeric ↔ c.info.kind ≠ .integer ∧ ∀ s ∈ ([] : List String), ∃ x, SpellsNumber s x) := by
  intro bs
  have hsplits : Splits .standard bs [["a"]] := ⟨by decide +kernel, by decide⟩
  have hread := @readTable_lines .standard bs [["a"]] 1 (by decide) (by decide) hsplits.texts "t"
  refine ⟨hsplits, _, readColumn true "a" [], hread, rfl, .nil, rfl, fun h => ?_⟩
  exact absurd (h.2 ⟨nofun, nofun⟩) (by decide)

end TableForest.Csv
