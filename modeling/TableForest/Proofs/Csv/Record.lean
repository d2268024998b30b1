import TableForest.Csv.Record
import TableForest.Proofs.Csv.Writer
import TableForest.Proofs.Text.Utf8

/-!
# Records are read back

The scanner of CSV undoes what the writer does, over all fields and delimiters: a field that holds a delimiter,
a quote or the end of a line stands in quotes, and a record that would be a blank line is a pair of quotes.

## The architecture

* **`Scanner.At`** says what the scanner is in the middle of, without saying where it is in the file; one lemma
  for each kind of byte says what it is in the middle of next.
* **`Scanner.At.fieldBytes`** reads a field, **`Scanner.At.recordBytes`** a record, and
  **`fields_records`** a whole file.
* **`dropMark_of_first`** is about the mark at the start of a file, which a first name can look like.
-/

namespace TableForest.Csv

/-- A byte that can stand between fields: no quote and no end of a line. -/
structure IsDelimiter (d : UInt8) : Prop where
  ne_quote : d ≠ quote
  ne_terminator : isTerminator d = false

/-- The writer uses quotes where they are needed, so that what it writes can be read. -/
def WriteOptions.Readable (options : WriteOptions) : Prop :=
  IsDelimiter options.delimiter ∧ (options.quoteStyle = .necessary ∨ options.quoteStyle = .always)

theorem isTerminator_quote : isTerminator quote = false := by
  decide

namespace Scanner

variable {d b : UInt8} {s : Scanner} {state : ScanState} {field : Bytes} {fields : List Bytes}
  {rows : List (List Bytes)}

/-- The scanner is in the middle of something: `field`, `fields` and `rows` are what it has read, in reverse. -/
structure At (s : Scanner) (state : ScanState) (field : Bytes) (fields : List Bytes)
    (rows : List (List Bytes)) : Prop where
  state_eq : s.state = state
  field_eq : s.field = field
  fields_eq : s.fields = fields
  rows_eq : s.records.map RawRecord.fields = rows

/-- A field may start here, also the first of a record. -/
def Begins : ScanState → Prop
  | .startRecord | .startField | .afterReturn => True
  | .inField | .inQuoted | .afterQuote => False

/-- A field of a record that has begun may end here. -/
def Ends : ScanState → Prop
  | .startField | .inField | .afterQuote => True
  | .startRecord | .afterReturn | .inQuoted => False

/-- No record has begun. -/
def Rests : ScanState → Prop
  | .startRecord | .afterReturn => True
  | .startField | .inField | .inQuoted | .afterQuote => False

/-- The scanner after more bytes. -/
def scan (d : UInt8) (s : Scanner) (bs : Bytes) : Scanner :=
  bs.foldl (step d) s

@[simp] theorem scan_nil (d : UInt8) (s : Scanner) : scan d s [] = s := by
  rfl

@[simp] theorem scan_cons (d b : UInt8) (s : Scanner) (bs : Bytes) :
    scan d s (b :: bs) = scan d (step d s b) bs := by
  rfl

@[simp] theorem scan_append (d : UInt8) (s : Scanner) (bs cs : Bytes) :
    scan d s (bs ++ cs) = scan d (scan d s bs) cs :=
  List.foldl_append

/-! ## Single bytes -/

/-- A byte that is not special is one of the field, unless the field stands in quotes. -/
theorem At.plain (h : s.At state field fields rows) (hstate : state ≠ .inQuoted)
    (hb : isSpecial d b = false) : (step d s b).At .inField (b :: field) fields rows := by
  obtain ⟨rfl, rfl, rfl, rfl⟩ := h
  simp only [isSpecial, Bool.or_eq_false_iff, decide_eq_false_iff_not] at hb
  obtain ⟨⟨hdelimiter, hquote⟩, hterminator⟩ := hb
  unfold step dispatch
  cases hs : s.state with
  | inQuoted => exact absurd hs hstate
  | _ =>
    simp only [stepRecord, stepStart, stepPlain, hdelimiter, hquote, hterminator, Bool.false_eq_true, if_false]
    exact ⟨rfl, rfl, rfl, rfl⟩

/-- A delimiter ends a field, unless the field stands in quotes. -/
theorem At.delimiter (h : s.At state field fields rows) (hstate : state ≠ .inQuoted)
    (hd : IsDelimiter d) : (step d s d).At .startField [] (field.reverse :: fields) rows := by
  obtain ⟨rfl, rfl, rfl, rfl⟩ := h
  unfold step dispatch
  cases hs : s.state with
  | inQuoted => exact absurd hs hstate
  | _ =>
    simp only [stepRecord, stepStart, stepPlain, hd.ne_quote, hd.ne_terminator, Bool.false_eq_true, if_false,
      if_true]
    exact ⟨rfl, rfl, rfl, rfl⟩

theorem At.openQuote (h : s.At state field fields rows) (hstate : Begins state) (d : UInt8) :
    (step d s quote).At .inQuoted field fields rows := by
  obtain ⟨rfl, rfl, rfl, rfl⟩ := h
  unfold step dispatch
  cases hs : s.state with
  | inField => simp [hs, Begins] at hstate
  | inQuoted => simp [hs, Begins] at hstate
  | afterQuote => simp [hs, Begins] at hstate
  | _ =>
    simp only [stepRecord, stepStart, isTerminator_quote, Bool.false_eq_true, if_false, if_true]
    exact ⟨rfl, rfl, rfl, rfl⟩

theorem At.quotedByte (h : s.At .inQuoted field fields rows) (d b : UInt8) :
    (scan d s (Csv.quotedByte b)).At .inQuoted (b :: field) fields rows := by
  obtain ⟨hs, rfl, rfl, rfl⟩ := h
  unfold Csv.quotedByte
  by_cases hb : b = quote
  · rw [if_pos hb, hb]
    simp only [scan_cons, scan_nil, step, dispatch, hs, if_true]
    exact ⟨rfl, rfl, rfl, rfl⟩
  · rw [if_neg hb]
    simp only [scan_cons, scan_nil, step, dispatch, hs, hb, if_false]
    exact ⟨rfl, rfl, rfl, rfl⟩

theorem At.closeQuote (h : s.At .inQuoted field fields rows) (d : UInt8) :
    (step d s quote).At .afterQuote field fields rows := by
  obtain ⟨hs, rfl, rfl, rfl⟩ := h
  simp only [step, dispatch, hs, if_true]
  exact ⟨rfl, rfl, rfl, rfl⟩

/-- The end of a line ends a record that has begun. -/
theorem At.terminate (h : s.At state field fields rows) (hstate : Ends state) (hd : IsDelimiter d)
    (hb : isTerminator b = true) :
    (step d s b).At (if b = carriageReturn then .afterReturn else .startRecord) [] []
      ((field.reverse :: fields).reverse :: rows) := by
  -- the byte ends the line, so it is neither the delimiter nor a quote
  have hdelimiter : b ≠ d := by
    rintro rfl
    rw [hd.ne_terminator] at hb
    cases hb
  have hquote : b ≠ quote := by
    rintro rfl
    rw [isTerminator_quote] at hb
    cases hb
  obtain ⟨rfl, rfl, rfl, rfl⟩ := h
  unfold step dispatch
  cases hs : s.state with
  | startRecord => simp [hs, Ends] at hstate
  | afterReturn => simp [hs, Ends] at hstate
  | inQuoted => simp [hs, Ends] at hstate
  | _ =>
    simp only [stepStart, stepPlain, hdelimiter, hquote, hb, if_false, if_true]
    exact ⟨rfl, rfl, rfl, rfl⟩

/-- A blank line is skipped. -/
theorem At.blank (h : s.At state field fields rows) (hstate : Rests state) (hb : isTerminator b = true) :
    (step d s b).At .startRecord field fields rows := by
  obtain ⟨rfl, rfl, rfl, rfl⟩ := h
  unfold step dispatch
  cases hs : s.state with
  | startRecord =>
    simp only [stepRecord, hb, if_true]
    exact ⟨rfl, rfl, rfl, rfl⟩
  | afterReturn =>
    simp only [stepRecord, hb, if_true]
    exact ⟨rfl, rfl, rfl, rfl⟩
  | _ => simp [hs, Rests] at hstate

/-! ## Fields -/

theorem At.moreBytes {bs : Bytes} (hbs : ∀ b ∈ bs, isSpecial d b = false) :
    ∀ {s : Scanner} {field : Bytes}, s.At .inField field fields rows →
      (scan d s bs).At .inField (bs.reverse ++ field) fields rows := by
  induction bs with
  | nil => exact fun h => h
  | cons b rest ih =>
    intro s field h
    obtain ⟨hb, hrest⟩ := List.forall_mem_cons.1 hbs
    have hread := ih hrest (h.plain (by simp) hb)
    simpa using hread

theorem At.quotedBytes (d : UInt8) (bs : Bytes) :
    ∀ {s : Scanner} {field : Bytes}, s.At .inQuoted field fields rows →
      (scan d s (bs.flatMap Csv.quotedByte)).At .inQuoted (bs.reverse ++ field) fields rows := by
  induction bs with
  | nil => exact fun h => h
  | cons b rest ih =>
    intro s field h
    have hread := ih (h.quotedByte d b)
    simpa using hread

/-- A field without quotes holds no byte that is special. -/
theorem isSpecial_of_needsQuotes {options : WriteOptions} (hread : options.Readable) {f : String}
    (h : needsQuotes options f = false) : ∀ b ∈ Utf8.encode f, isSpecial options.delimiter b = false := by
  intro b hb
  unfold needsQuotes at h
  rcases hread.2 with hstyle | hstyle
  · simp only [hstyle, List.any_eq_false] at h
    simpa using h b hb
  · simp [hstyle] at h

/-- Behind a field the record may end, unless nothing was written of it and no record has begun. -/
theorem At.fieldBytes {options : WriteOptions} (hread : options.Readable)
    (h : s.At state [] fields rows) (hbegins : Begins state) (f : String) :
    ∃ next, (scan options.delimiter s (Csv.fieldBytes options f)).At next (Utf8.encode f).reverse fields rows ∧
      (Ends next ∨ next = state ∧ Csv.fieldBytes options f = []) := by
  unfold Csv.fieldBytes
  cases hquotes : needsQuotes options f with
  -- a field in quotes is read to its closing quote, whatever is inside it
  | true =>
    refine ⟨.afterQuote, ?_, .inl trivial⟩
    have hinside := At.quotedBytes options.delimiter (Utf8.encode f) (h.openQuote hbegins options.delimiter)
    simpa using hinside.closeQuote options.delimiter
  | false =>
    -- without quotes no byte of the field is special, and an empty field writes nothing
    have hplain := isSpecial_of_needsQuotes hread hquotes
    cases hbytes : Utf8.encode f with
    | nil => exact ⟨state, by simpa using h, .inr ⟨rfl, rfl⟩⟩
    | cons b rest =>
      rw [hbytes] at hplain
      obtain ⟨hb, hrest⟩ := List.forall_mem_cons.1 hplain
      have hstate : state ≠ .inQuoted := by
        rintro rfl
        exact hbegins
      refine ⟨.inField, ?_, .inl trivial⟩
      have hfield := (h.plain hstate hb).moreBytes hrest
      simpa using hfield

/-- The fields behind the first, each with a delimiter before it. -/
theorem At.moreFields {options : WriteOptions} (hread : options.Readable) (more : List String) :
    ∀ {s : Scanner} {state : ScanState} {field : Bytes} {fields : List Bytes},
      s.At state field fields rows → state ≠ .inQuoted → Ends state ∨ more ≠ [] →
      ∃ next field' fields',
        (scan options.delimiter s (Csv.moreBytes options more)).At next field' fields' rows ∧
        Ends next ∧
        (field'.reverse :: fields').reverse = (field.reverse :: fields).reverse ++ more.map Utf8.encode := by
  induction more with
  | nil =>
    intro s state field fields h _ hends
    exact ⟨state, field, fields, h, hends.resolve_right (by simp), by simp⟩
  | cons f more ih =>
    intro s state field fields h hstate _
    obtain ⟨middle, hfield, hends⟩ := At.fieldBytes hread (h.delimiter hstate hread.1) trivial f
    have hmiddle : Ends middle := by
      -- quotes are only open within a field, and here one has ended
      rcases hends with hends | ⟨rfl, -⟩
      · exact hends
      · trivial
    have hquoted : middle ≠ .inQuoted := by
      rintro rfl
      exact hmiddle
    obtain ⟨next, field', fields', hrest, hnext, hall⟩ := ih hfield hquoted (.inl hmiddle)
    refine ⟨next, field', fields', by simpa [Csv.moreBytes] using hrest, hnext, ?_⟩
    rw [hall]
    simp

/-! ## Records -/

theorem At.terminator {options : WriteOptions} (hread : options.Readable)
    (h : s.At state field fields rows) (hends : Ends state) :
    ∃ next, (scan options.delimiter s (Csv.terminator options)).At next [] []
      ((field.reverse :: fields).reverse :: rows) ∧ Rests next := by
  unfold Csv.terminator
  cases options.crlf with
  | true =>
    have hreturn := h.terminate hends hread.1 (b := carriageReturn) (by decide)
    exact ⟨.startRecord, hreturn.blank trivial (by decide), trivial⟩
  | false => exact ⟨.startRecord, h.terminate hends hread.1 (b := lineFeed) (by decide), trivial⟩

/-- **A record is read back**, also if it would be a blank line. -/
theorem At.recordBytes {options : WriteOptions} (hread : options.Readable) (h : s.At state [] [] rows)
    (hrests : Rests state) {record : List String} (hne : record ≠ []) :
    ∃ next, (scan options.delimiter s (Csv.recordBytes options record)).At next [] []
      (record.map Utf8.encode :: rows) ∧ Rests next := by
  have hbegins : Begins state := by
    cases state with
    | startRecord => trivial
    | afterReturn => trivial
    | _ => exact hrests.elim
  obtain ⟨f, more, rfl⟩ := List.exists_cons_of_ne_nil hne
  obtain ⟨middle, hfield, hends⟩ := At.fieldBytes hread h hbegins f
  rw [recordBytes_cons, closeRecord]
  by_cases hempty : Csv.fieldBytes options f = [] ∧ more = []
  · -- nothing is written of the record, so a pair of quotes stands for it
    obtain ⟨hnothing, rfl⟩ := hempty
    rw [hnothing] at hfield ⊢
    have hpair := (h.openQuote hbegins options.delimiter).closeQuote options.delimiter
    obtain ⟨next, hnext, hrest⟩ := hpair.terminator hread trivial
    have hencode : Utf8.encode f = [] := by
      have hrestored := hfield.field_eq.symm.trans (by simpa using h.field_eq)
      simpa using hrestored
    refine ⟨next, ?_, hrest⟩
    simpa [hencode, Csv.moreBytes] using hnext
  · have hmiddle : middle ≠ .inQuoted := by
      rintro rfl
      rcases hends with hends | ⟨rfl, -⟩
      · exact hends
      · exact hrests
    have hmore : Ends middle ∨ more ≠ [] := by
      rcases hends with hends | ⟨-, hnothing⟩
      · exact .inl hends
      · exact .inr fun hnil => hempty ⟨hnothing, hnil⟩
    obtain ⟨last, field', fields', hall, hlast, hrecord⟩ := hfield.moreFields hread more hmiddle hmore
    obtain ⟨next, hnext, hrest⟩ := hall.terminator hread hlast
    have hsome : (Csv.fieldBytes options f ++ Csv.moreBytes options more).isEmpty = false := by
      rw [List.isEmpty_eq_false_iff, Ne, List.append_eq_nil_iff, moreBytes_eq_nil]
      exact hempty
    rw [hsome, if_neg Bool.false_ne_true]
    refine ⟨next, ?_, hrest⟩
    rw [hrecord] at hnext
    simpa using hnext

theorem At.recordsBytes {options : WriteOptions} (hread : options.Readable) {records : List (List String)}
    (hne : ∀ r ∈ records, r ≠ []) :
    ∀ {s : Scanner} {state : ScanState} {rows : List (List Bytes)}, s.At state [] [] rows → Rests state →
      ∃ next, (scan options.delimiter s (records.flatMap (Csv.recordBytes options))).At next [] []
        ((records.map (·.map Utf8.encode)).reverse ++ rows) ∧ Rests next := by
  induction records with
  | nil => exact fun h hrests => ⟨_, h, hrests⟩
  | cons r rest ih =>
    intro s state rows h hrests
    obtain ⟨hr, hrest⟩ := List.forall_mem_cons.1 hne
    obtain ⟨middle, hrecord, hmiddle⟩ := At.recordBytes hread h hrests hr
    obtain ⟨next, hall, hnext⟩ := ih hrest hrecord hmiddle
    refine ⟨next, ?_, hnext⟩
    simpa using hall

theorem At.finish (h : s.At state [] [] rows) (hrests : Rests state) :
    s.finish.map RawRecord.fields = rows.reverse := by
  obtain ⟨rfl, -, -, rfl⟩ := h
  unfold Scanner.finish
  cases hs : s.state with
  | startRecord => simp
  | afterReturn => simp
  | _ => simp [hs, Rests] at hrests

theorem initial_at (skipped : Nat) : (initial skipped).At .startRecord [] [] [] := by
  exact ⟨rfl, rfl, rfl, rfl⟩

end Scanner

/-! ## Files -/

variable {options : WriteOptions}

/-- **The records of a file are read back**, also behind a blank line. -/
theorem fields_records (hread : options.Readable) {bs lead : Bytes} {records : List (List String)} {skipped : Nat}
    (hne : ∀ r ∈ records, r ≠ []) (hlead : lead = [] ∨ lead = terminator options)
    (hbs : dropMark bs = (lead ++ records.flatMap (recordBytes options), skipped)) :
    (Csv.records options.delimiter bs).map RawRecord.fields = records.map (·.map Utf8.encode) := by
  -- whatever stands in front of the records, the scanner is at the start of one
  have hstart : ∃ next, (Scanner.scan options.delimiter (.initial skipped) lead).At next [] [] [] ∧
      Scanner.Rests next := by
    have hinitial := Scanner.initial_at skipped
    rcases hlead with rfl | rfl
    · exact ⟨_, hinitial, trivial⟩
    · unfold terminator
      cases options.crlf with
      | true =>
        have hreturn := hinitial.blank (d := options.delimiter) (b := carriageReturn) trivial (by decide)
        have hfeed := hreturn.blank (d := options.delimiter) (b := lineFeed) trivial (by decide)
        exact ⟨.startRecord, hfeed, trivial⟩
      | false =>
        have hfeed := hinitial.blank (d := options.delimiter) (b := lineFeed) trivial (by decide)
        exact ⟨.startRecord, hfeed, trivial⟩
  obtain ⟨next, hnext, hrests⟩ := hstart
  obtain ⟨last, hlast, hrest⟩ := Scanner.At.recordsBytes hread hne hnext hrests
  unfold Csv.records
  rw [hbs]
  have hfinish := hlast.finish hrest
  simpa [Scanner.scan] using hfinish

/-! ## The mark at the start of a file -/

/-- The mark as a character of a text. -/
def markChar : Char := '\uFEFF'

/-- Only the mark itself starts with its bytes. -/
theorem eq_markChar_of_prefix {c : Char} {rest : Bytes}
    (h : byteOrderMark <+: String.utf8EncodeChar c ++ rest) : c = markChar := by
  have hval : c.val.toNat = 0xFEFF := by
    unfold byteOrderMark String.utf8EncodeChar at h
    dsimp only at h
    generalize c.val.toNat = v at h
    -- the first byte says how long the code is, and the others are the bits of the character
    split at h
    · simp [← UInt8.toNat_inj] at h
      omega
    · split at h
      · simp [← UInt8.toNat_inj] at h
        omega
      · split at h
        · simp [← UInt8.toNat_inj] at h
          omega
        · simp [← UInt8.toNat_inj] at h
          omega
  apply Char.ext
  apply UInt32.toNat_inj.1
  exact hval

theorem dropMark_of_not_prefix {bs : Bytes} (h : ¬byteOrderMark <+: bs) : dropMark bs = (bs, 0) := by
  unfold dropMark
  rw [if_neg (by simpa using h)]

theorem dropMark_append (bs : Bytes) : dropMark (byteOrderMark ++ bs) = (bs, 3) := by
  unfold dropMark
  rw [if_pos (by simp)]
  rfl

/-- A record starts with its first field if that has a text. -/
theorem exists_recordBytes {f : String} (hf : f ≠ "") (more : List String) :
    ∃ rest, recordBytes options (f :: more) = fieldBytes options f ++ rest := by
  have hsome : fieldBytes options f ≠ [] := by
    unfold fieldBytes
    split
    · simp
    · exact mt Utf8.encode_eq_nil.1 hf
  rw [recordBytes_cons, closeRecord, if_neg (by simp [hsome]), List.append_assoc]
  exact ⟨_, rfl⟩

/-- The first byte of what is written is that of a quote or of the first name, so nothing is taken for the mark
unless the name starts with it. -/
theorem dropMark_of_first {f : String} (hf : f ≠ "")
    (hmark : f.toList.head? ≠ some markChar ∨ needsQuotes options f = true) (more : List String) (bs : Bytes) :
    dropMark (recordBytes options (f :: more) ++ bs) = (recordBytes options (f :: more) ++ bs, 0) := by
  obtain ⟨rest, hrest⟩ := @exists_recordBytes options f hf more
  apply dropMark_of_not_prefix
  rw [hrest, List.append_assoc]
  intro hprefix
  unfold fieldBytes at hprefix
  split at hprefix
  · -- quotes stand before the name
    have hquote : (0xEF : UInt8) = quote := by
      simp only [byteOrderMark, List.cons_append, List.cons_prefix_cons] at hprefix
      exact hprefix.1
    revert hquote
    decide
  · rename_i hplain
    have hhead := hmark.resolve_right hplain
    cases hchars : f.toList with
    | nil => exact hf (by rw [← String.ofList_toList (s := f), hchars])
    | cons c cs =>
      rw [Utf8.encode_eq_flatMap, hchars, List.flatMap_cons, List.append_assoc] at hprefix
      rw [hchars, List.head?_cons, eq_markChar_of_prefix hprefix] at hhead
      exact hhead rfl

/-- A first name that starts with the mark loses it, and a record of nothing else becomes a blank line. -/
theorem recordBytes_of_mark (hstyle : options.quoteStyle = .necessary) {f : String} {cs : List Char}
    (hf : f.toList = markChar :: cs) (hplain : needsQuotes options f = false) (more : List String) :
    recordBytes options (f :: more) = byteOrderMark ++
      if cs = [] ∧ more = [] then terminator options else recordBytes options (String.ofList cs :: more) := by
  have hencode : Utf8.encode f = byteOrderMark ++ Utf8.encode (String.ofList cs) := by
    rw [Utf8.encode_eq_flatMap, Utf8.encode_eq_flatMap, hf, String.toList_ofList, List.flatMap_cons]
    rfl
  have hrest : needsQuotes options (String.ofList cs) = false := by
    -- what follows the mark needs no quotes either
    unfold needsQuotes at hplain ⊢
    simp only [hstyle] at hplain ⊢
    rw [hencode, List.any_append, Bool.or_eq_false_iff] at hplain
    exact hplain.2
  have hfield : fieldBytes options f = byteOrderMark ++ fieldBytes options (String.ofList cs) := by
    simp only [fieldBytes, hplain, hrest, Bool.false_eq_true, if_false, hencode]
  -- without anything behind the mark the line is empty, and no record of its own
  by_cases hnothing : cs = [] ∧ more = []
  · rw [if_pos hnothing, recordBytes_cons, closeRecord, hfield]
    obtain ⟨rfl, rfl⟩ := hnothing
    simp [fieldBytes, hrest, moreBytes, byteOrderMark, Utf8.encode]
  · have hsome : (fieldBytes options (String.ofList cs) ++ moreBytes options more).isEmpty = false := by
      rw [List.isEmpty_eq_false_iff, Ne, List.append_eq_nil_iff, moreBytes_eq_nil]
      rintro ⟨hcs, hmore⟩
      simp only [fieldBytes, hrest, Bool.false_eq_true, if_false] at hcs
      refine hnothing ⟨Decidable.byContradiction fun hne => ?_, hmore⟩
      exact mt Utf8.encode_eq_nil.1 (by simpa using hne) hcs
    rw [if_neg hnothing, recordBytes_cons, recordBytes_cons, closeRecord, closeRecord, hfield, hsome]
    simp [byteOrderMark]

end TableForest.Csv
