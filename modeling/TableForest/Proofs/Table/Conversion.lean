import TableForest.Proofs.Number.Exact
import TableForest.Proofs.Table.Shape

/-!
# Columns of another kind

A column is converted by reading the text of each of its cells under the new kind.  The first text that spells no
value of the kind stops it, and then nothing has changed.  Every column can be made one of texts, and back again unless
there are numbers in it that are none.  Integers always have a number that they are read as, the one nearest to them;
it is the integer itself only if the format of numbers holds it.

## The architecture

* **`Column.Converts`** relates a column to what it becomes, and **`convertColumn_eq_ok`** says that a
  conversion puts such a column in place and does nothing else.
* **`convertCells_eq_error`** is the first failure of the loop, and **`convertColumn_eq_error`** that of a conversion.
  **`convertColumn_outcome`** puts the outcomes together, with the way to texts and back (**`Column.Converts.back`**).
* **`Cell.parse_integer_text`** is the conversion of one cell from an integer to a number, and
  **`convertColumn_integers`** that of a column.
-/

namespace TableForest

/-- A column becomes another by reading the text of each cell under a kind. -/
structure Column.Converts (kind : Kind) (subtype : Tag) (c d : Column) : Prop where
  info : d.info = { c.info with kind := kind, subtype := subtype }
  cells : List.Forall₂ (fun old new => Cell.parse kind subtype old.text = .ok new) c.cells d.cells

namespace Cell

/-- A cell is read if its value is. -/
theorem parse_eq_ok {kind : Kind} {subtype : Tag} {s : String} {c : Cell} :
    Cell.parse kind subtype s = .ok c ↔ Value.parse kind s = .ok c.value ∧ c.subtype = subtype := by
  unfold Cell.parse
  rw [Except.map_eq_ok]
  constructor
  · rintro ⟨v, hv, rfl⟩
    exact ⟨hv, rfl⟩
  · rintro ⟨hv, rfl⟩
    exact ⟨c.value, hv, rfl⟩

theorem parse_eq_error {kind : Kind} {subtype : Tag} {s : String} {e : CellError} :
    Cell.parse kind subtype s = .error e ↔ Value.parse kind s = .error e :=
  Except.map_eq_error

/-- A cell is read back from its text, unless it holds a number that is none. -/
theorem parse_text_self {c : Cell} (h : ∀ x, c.value = .numeric x → x.isNaN = false) :
    Cell.parse c.kind c.subtype c.text = .ok c := by
  obtain ⟨v, hread, -, hback⟩ := Value.read?_toText c.value
  rw [hback h] at hread
  refine parse_eq_ok.2 ⟨?_, rfl⟩
  unfold Value.parse
  rw [show Value.read? c.kind c.text = some c.value from hread]

/-- The number that a cell holds, if it holds one. -/
def number? (c : Cell) : Option ℚ :=
  match c.value with
  | .integer n => some n.toInt
  | .numeric x => if x.isFinite then some x.value else none
  | _ => none

/-- The text of an integer is read as the number nearest to it. -/
theorem parse_integer_text {c : Cell} {n : Int64} (h : c.value = .integer n) (subtype : Tag) :
    Cell.parse .numeric subtype c.text = .ok ⟨.numeric (.ofInt n.toInt), subtype⟩ := by
  unfold Cell.parse Cell.text Value.parse Value.read?
  rw [h, Value.toText, Binary.read?_intText]
  rfl

/-- The number nearest to an integer is the integer iff the format of numbers holds it. -/
theorem number?_ofInt_iff {c : Cell} {n : Int64} (h : c.value = .integer n) (subtype : Tag) :
    Cell.number? ⟨.numeric (.ofInt n.toInt), subtype⟩ = c.number? ↔ Format.binary64.Holds n.toInt := by
  have hfinite := Binary.isFinite_ofInt n
  rw [← Binary.value_ofInt_iff hfinite]
  simp [number?, h, hfinite]

end Cell

namespace Column

variable {c : Column}

/-- A column with the texts of its cells in place of their values. -/
def asTexts (c : Column) (subtype : Tag) : Column :=
  ⟨{ c.info with kind := .text, subtype := subtype }, c.cells.map fun old => ⟨.text old.text, subtype⟩⟩

/-- Every column can be one of texts. -/
theorem converts_asTexts (c : Column) (subtype : Tag) : c.Converts .text subtype (c.asTexts subtype) where
  info := rfl
  cells := by
    unfold asTexts
    rw [List.forall₂_map_right_iff, List.forall₂_same]
    intro old _
    rfl

/-- A column can be what it was before it became one of texts. -/
theorem Converts.back {rows : Nat} (h : c.Fits rows)
    (hnumbers : ∀ old ∈ c.cells, ∀ x, old.value = .numeric x → x.isNaN = false) (subtype : Tag) :
    (c.asTexts subtype).Converts c.info.kind c.info.subtype c where
  info := rfl
  cells := by
    unfold asTexts
    rw [List.forall₂_map_left_iff, List.forall₂_same]
    intro old hold
    rw [← h.kinds old hold, ← h.subtypes old hold]
    exact Cell.parse_text_self (hnumbers old hold)

end Column

namespace Table

variable {t u : Table} {index : Nat}

/-- An edit succeeds if its check does, and then the rest of it. -/
theorem requiring_eq_ok {α β : Type} {check : Except TableError β} {next : β → Edited α} {a : α} :
    t.requiring check next = (.ok a, u) ↔ ∃ b, check = .ok b ∧ next b = (.ok a, u) := by
  cases check with
  | error e => simp [requiring]
  | ok b => simp [requiring]

/-- An edit fails if its check does, or the rest of it. -/
theorem requiring_eq_error {α β : Type} {check : Except TableError β} {next : β → Edited α} {e : TableError} :
    t.requiring check next = (.error e, u) ↔
      (check = .error e ∧ u = t) ∨ ∃ b, check = .ok b ∧ next b = (.error e, u) := by
  cases check with
  | error e' => simp [requiring, eq_comm]
  | ok b => simp [requiring]

/-- **A conversion puts the converted column in place of the old one and changes nothing else.** -/
theorem convertColumn_eq_ok {kind : Kind} {subtype : Tag} :
    t.convertColumn index kind subtype = (.ok (), u) ↔
      ∃ c d, t.columns[index]? = some c ∧ c.Converts kind subtype d ∧
        u = { t with columns := t.columns.set index d } := by
  unfold convertColumn
  simp only [requiring_eq_ok, column_eq_ok, convertCells_eq_ok]
  constructor
  · rintro ⟨c, hc, cells, hcells, h⟩
    rw [modifyColumn_eq_set hc] at h
    exact ⟨c, _, hc, ⟨rfl, hcells⟩, (Prod.mk.inj h).2.symm⟩
  · rintro ⟨c, d, hc, hconverts, rfl⟩
    refine ⟨c, hc, d.cells, hconverts.cells, ?_⟩
    rw [modifyColumn_eq_set hc, ← hconverts.info]

theorem column_eq_error {e : TableError} :
    t.column index = .error e ↔ t.columns[index]? = none ∧ e = .columnIndex index t.columns.length := by
  unfold column
  cases t.columns[index]? with
  | none => simp [eq_comm]
  | some c => simp

/-- **The first text that spells no value stops the conversion of some cells.** -/
theorem convertCells_eq_error {name : String} {kind : Kind} {subtype : Tag} {cells : List Cell} {e : TableError} :
    ∀ {row : Nat}, convertCells name kind subtype row cells = .error e ↔
      ∃ k old cause, cells[k]? = some old ∧ Value.parse kind old.text = .error cause ∧
        (∀ earlier ∈ cells.take k, ∃ v, Value.parse kind earlier.text = .ok v) ∧
        e = .conversion name (row + k) cause := by
  induction cells with
  | nil => simp [convertCells]
  | cons c rest ih =>
    intro row
    rw [convertCells]
    -- the first cell is either the one that fails, at row zero, or one of those before it
    cases hparse : Cell.parse kind subtype c.text with
    | error cause =>
      have hcause := Cell.parse_eq_error.1 hparse
      constructor
      · intro h
        exact ⟨0, c, cause, rfl, hcause, List.forall_mem_nil _, (Except.error.inj h).symm⟩
      -- a failure further down would have the first cell converted before it
      · rintro ⟨k, old, cause', hold, hcause', hbefore, rfl⟩
        cases k with
        | zero =>
          obtain rfl := Option.some.inj hold
          rw [Except.error.inj (hcause.symm.trans hcause')]
          rfl
        | succ k =>
          obtain ⟨v, hv⟩ := hbefore c List.mem_cons_self
          rw [hcause] at hv
          cases hv
    | ok new =>
      obtain ⟨hvalue, -⟩ := Cell.parse_eq_ok.1 hparse
      -- the rows of the rest are counted from the next one
      rw [Except.map_eq_error, ih]
      constructor
      · rintro ⟨k, old, cause, hold, hcause, hbefore, rfl⟩
        refine ⟨k + 1, old, cause, hold, hcause, ?_, by rw [Nat.add_assoc, Nat.add_comm 1]⟩
        rw [List.take_succ_cons, List.forall_mem_cons]
        exact ⟨⟨_, hvalue⟩, hbefore⟩
      · rintro ⟨k, old, cause, hold, hcause, hbefore, rfl⟩
        cases k with
        | zero =>
          obtain rfl := Option.some.inj hold
          rw [hvalue] at hcause
          cases hcause
        | succ k =>
          rw [List.take_succ_cons, List.forall_mem_cons] at hbefore
          exact ⟨k, old, cause, hold, hcause, hbefore.2, by rw [Nat.add_assoc, Nat.add_comm 1]⟩

/-- A conversion fails for a column that is not there, or for its first cell whose text spells no value. -/
theorem convertColumn_eq_error {kind : Kind} {subtype : Tag} {e : TableError} :
    t.convertColumn index kind subtype = (.error e, u) ↔
      u = t ∧ (t.columns[index]? = none ∧ e = .columnIndex index t.columns.length ∨
        ∃ c row old cause, t.columns[index]? = some c ∧ c.cells[row]? = some old ∧
          Value.parse kind old.text = .error cause ∧
          (∀ earlier ∈ c.cells.take row, ∃ v, Value.parse kind earlier.text = .ok v) ∧
          e = .conversion c.info.name row cause) := by
  unfold convertColumn
  -- the three checks become the three ways to fail, and the last of them cannot be told from a failure of a cell
  simp only [requiring_eq_error, column_eq_ok, column_eq_error, convertCells_eq_error, Nat.zero_add, reduceCtorEq,
    Prod.mk.injEq, false_and, and_false, exists_false, or_false]
  constructor
  · rintro (⟨hnone, rfl⟩ | ⟨c, hc, ⟨row, old, cause, hfirst⟩, rfl⟩)
    · exact ⟨rfl, .inl hnone⟩
    · exact ⟨rfl, .inr ⟨c, row, old, cause, hc, hfirst⟩⟩
  · rintro ⟨rfl, hnone | ⟨c, row, old, cause, hc, hfirst⟩⟩
    · exact .inl ⟨hnone, rfl⟩
    · exact .inr ⟨c, hc, ⟨row, old, cause, hfirst⟩, rfl⟩

/-- A conversion succeeds iff all texts of the column spell values. -/
theorem isOk_convertColumn_iff {kind : Kind} {subtype : Tag} :
    (t.convertColumn index kind subtype).1.isOk = true ↔
      ∃ c, t.columns[index]? = some c ∧ ∀ old ∈ c.cells, ∃ v, Value.parse kind old.text = .ok v := by
  rcases hconverted : t.convertColumn index kind subtype with ⟨e | _, u⟩
  · -- a failure names a cell that is no text of the kind
    obtain ⟨-, ⟨hnone, -⟩ | ⟨c, row, old, cause, hc, hold, hcause, -⟩⟩ := convertColumn_eq_error.1 hconverted
    · simp [hnone, Except.isOk, Except.toBool]
    · refine iff_of_false nofun ?_
      rintro ⟨c', hc', hall⟩
      obtain rfl := Option.some.inj (hc.symm.trans hc')
      obtain ⟨v, hv⟩ := hall old (List.mem_of_getElem? hold)
      rw [hcause] at hv
      cases hv
  · -- a success has read every cell
    obtain ⟨c, d, hc, hconverts, -⟩ := convertColumn_eq_ok.1 hconverted
    refine iff_of_true rfl ⟨c, hc, ?_⟩
    have hread := hconverts.cells.imp fun old new hnew =>
      And.intro (⟨new.value, (Cell.parse_eq_ok.1 hnew).1⟩ : ∃ v, Value.parse kind old.text = .ok v) hnew
    exact ((List.forall₂_and_left _ _).1 hread).1

/-- A column that becomes one of texts and then what it was before leaves the table as it was. -/
theorem convertColumn_back (h : t.Shape) {c : Column} (hc : t.columns[index]? = some c)
    (hnumbers : ∀ old ∈ c.cells, ∀ x, old.value = .numeric x → x.isNaN = false) (subtype : Tag) :
    ∃ u, t.convertColumn index .text subtype = (.ok (), u) ∧
      u.convertColumn index c.info.kind c.info.subtype = (.ok (), t) := by
  obtain ⟨hlt, hget⟩ := List.getElem?_eq_some_iff.1 hc
  refine ⟨{ t with columns := t.columns.set index (c.asTexts subtype) }, ?_, ?_⟩
  · exact convertColumn_eq_ok.2 ⟨c, _, hc, c.converts_asTexts subtype, rfl⟩
  · refine convertColumn_eq_ok.2 ⟨c.asTexts subtype, c, List.getElem?_set_self hlt, ?_, ?_⟩
    · exact .back (h.fits_of_getElem? hc) hnumbers subtype
    · show t = { t with columns := (t.columns.set index (c.asTexts subtype)).set index c }
      rw [List.set_set, ← hget, List.set_getElem_self]

/-- **What comes of a conversion.**  It succeeds iff every text of the column spells a value of the kind; then each
cell holds what its text spells, and all that is not kind, subtype or cell of the column stays.  Otherwise the first
text that spells none is reported, and nothing changes.  A column can be made one of texts and back again, unless
there are numbers in it that are none. -/
theorem convertColumn_outcome (h : t.Shape) (index : Nat) (kind : Kind) (subtype : Tag) :
    ((t.convertColumn index kind subtype).1.isOk = true ↔
      ∃ c, t.columns[index]? = some c ∧ ∀ old ∈ c.cells, ∃ v, Value.parse kind old.text = .ok v) ∧
    (∀ u, t.convertColumn index kind subtype = (.ok (), u) →
      ∃ c d, t.columns[index]? = some c ∧ u = { t with columns := t.columns.set index d } ∧
        d.info = { c.info with kind := kind, subtype := subtype } ∧
        List.Forall₂ (fun old new => Value.parse kind old.text = .ok new.value ∧ new.subtype = subtype)
          c.cells d.cells) ∧
    (∀ e u, t.convertColumn index kind subtype = (.error e, u) →
      u = t ∧ (t.columns[index]? = none ∧ e = .columnIndex index t.columns.length ∨
        ∃ c row old cause, t.columns[index]? = some c ∧ c.cells[row]? = some old ∧
          Value.parse kind old.text = .error cause ∧
          (∀ earlier ∈ c.cells.take row, ∃ v, Value.parse kind earlier.text = .ok v) ∧
          e = .conversion c.info.name row cause)) ∧
    ∀ c, t.columns[index]? = some c → (∀ old ∈ c.cells, ∀ x, old.value = .numeric x → x.isNaN = false) →
      ∀ tag, ∃ u, t.convertColumn index .text tag = (.ok (), u) ∧
        u.convertColumn index c.info.kind c.info.subtype = (.ok (), t) := by
  refine ⟨isOk_convertColumn_iff, fun u hconverted => ?_, fun e u hfailed => convertColumn_eq_error.1 hfailed,
    -- both ways are settled by iffs on the answer, and a round trip through text by its own lemma
    fun c hc hnumbers tag => convertColumn_back h hc hnumbers tag⟩
  obtain ⟨c, d, hc, hconverts, hu⟩ := convertColumn_eq_ok.1 hconverted
  exact ⟨c, d, hc, hu, hconverts.info, hconverts.cells.imp fun old new hnew => Cell.parse_eq_ok.1 hnew⟩

/-- Readings as they were typed in, and limits, which are numbers. -/
def readings : Table :=
  (Table.empty "readings").run
    [.addColumnWithCells (.ofKind "reading" .text)
        (["12", "37.5", "4"].map fun s => ⟨.text s, Kind.text.defaultTag⟩),
      .addColumnWithCells (.ofKind "limit" .numeric)
        ([.zero true, .infinite false, .ofInt 5].map fun x => ⟨.numeric x, Kind.numeric.defaultTag⟩)]

/-- A fraction keeps readings from being integers; a limit without an end comes back from its text. -/
theorem readings_converted :
    readings.Shape ∧
      readings.convertColumn 0 .integer Kind.integer.defaultTag =
        (.error (.conversion "reading" 1 (.unreadable .integer "37.5")), readings) ∧
      (readings.convertColumn 0 .numeric Kind.numeric.defaultTag).1.isOk = true ∧
      ∃ u, readings.convertColumn 1 .text Kind.text.defaultTag = (.ok (), u) ∧
        u.convertColumn 1 .numeric Kind.numeric.defaultTag = (.ok (), readings) := by
  have hshape : readings.Shape := (Shape.empty "readings").run _
  have hsettled := convertColumn_outcome hshape
  refine ⟨hshape, ?_, ?_, ?_⟩
  · -- the second reading has a fraction
    rcases hfailed : readings.convertColumn 0 .integer Kind.integer.defaultTag with ⟨answer, u⟩
    have hanswer : answer = .error (.conversion "reading" 1 (.unreadable .integer "37.5")) := by
      rw [show answer = (readings.convertColumn 0 .integer Kind.integer.defaultTag).1 by rw [hfailed]]
      decide +kernel
    subst hanswer
    rw [((hsettled 0 _ _).2.2.1 _ _ hfailed).1]
  · -- every reading is a number
    refine (hsettled 0 _ _).1.2 ⟨readings.columns[0], rfl, ?_⟩
    have hread : ∀ old ∈ readings.columns[0].cells, (Value.parse .numeric old.text).isOk = true := by decide +kernel
    intro old hold
    have hspelt := hread old hold
    rcases hparse : Value.parse .numeric old.text with cause | v
    · rw [hparse] at hspelt
      cases hspelt
    · exact ⟨v, rfl⟩
  · -- no reading is `NaN`, the one number whose text does not lead back
    refine (hsettled 1 .text Kind.text.defaultTag).2.2.2 readings.columns[1] rfl ?_ _
    have hnumbers : ∀ old ∈ readings.columns[1].cells,
        (old.value.asNumeric?).all (fun x => !x.isNaN) = true := by decide +kernel
    intro old hold x hx
    have hnumber := hnumbers old hold
    rw [hx] at hnumber
    simpa [Value.asNumeric?] using hnumber

/-- **Integers become the numbers nearest to them.**  The conversion of a column of integers to numbers never
fails, and a row keeps its number iff the format of numbers holds the integer. -/
theorem convertColumn_integers (h : t.Shape) {c : Column} (hc : t.columns[index]? = some c)
    (hkind : c.info.kind = .integer) (subtype : Tag) :
    ∃ d, t.convertColumn index .numeric subtype = (.ok (), { t with columns := t.columns.set index d }) ∧
      d.info = { c.info with kind := .numeric, subtype := subtype } ∧
      List.Forall₂ (fun old new => ∃ n : Int64, old.value = .integer n ∧
        new = ⟨.numeric (.ofInt n.toInt), subtype⟩ ∧
        (new.number? = old.number? ↔ Format.binary64.Holds n.toInt)) c.cells d.cells := by
  have hfits := h.fits_of_getElem? hc
  -- every integer has a text that reads as a number, so no cell fails
  let convert (old : Cell) : Cell := ⟨.numeric (.ofInt (old.value.asInteger?.getD 0).toInt), subtype⟩
  have hcell : ∀ old ∈ c.cells, ∃ n, old.value = .integer n ∧ convert old = ⟨.numeric (.ofInt n.toInt), subtype⟩ := by
    intro old hold
    obtain ⟨n, hn⟩ := Value.exists_integer ((hfits.kinds old hold).trans hkind)
    exact ⟨n, hn, by simp only [convert, hn]; rfl⟩
  refine ⟨⟨{ c.info with kind := .numeric, subtype := subtype }, c.cells.map convert⟩, ?_, rfl, ?_⟩
  · refine convertColumn_eq_ok.2 ⟨c, _, hc, ⟨rfl, ?_⟩, rfl⟩
    rw [List.forall₂_map_right_iff, List.forall₂_same]
    intro old hold
    obtain ⟨n, hn, hconvert⟩ := hcell old hold
    rw [hconvert]
    exact Cell.parse_integer_text hn subtype
  · rw [List.forall₂_map_right_iff, List.forall₂_same]
    intro old hold
    obtain ⟨n, hn, hconvert⟩ := hcell old hold
    exact ⟨n, hn, hconvert, hconvert ▸ Cell.number?_ofInt_iff hn subtype⟩

/-- A column of integers, and one of numbers. -/
def countColumn (kind : Kind) (values : List Value) : Column :=
  ⟨.ofKind "Count" kind, values.map fun v => ⟨v, kind.defaultTag⟩⟩

/-- A table of one column of integers. -/
def counts (ns : List Int64) : Table :=
  { Table.empty "counts" with columns := [countColumn .integer (ns.map .integer)], rows := ns.length }

theorem counts_shape (ns : List Int64) : (counts ns).Shape where
  fits c hc := by
    obtain rfl := List.mem_singleton.1 hc
    refine ⟨show "Count" ≠ "" by decide, by simp [countColumn, counts], fun cell hcell => ?_, fun cell hcell => ?_⟩
    · obtain ⟨v, hv, rfl⟩ := List.mem_map.1 hcell
      obtain ⟨n, -, rfl⟩ := List.mem_map.1 hv
      rfl
    · obtain ⟨v, -, rfl⟩ := List.mem_map.1 hcell
      rfl
  rowless h := nomatch h

/-- Of two integers with more bits than a significand has, the one that ends with zeros keeps its number. -/
theorem great_integers_to_numeric :
    let t := counts [1152921504606846976, 9007199254740993]
    t.Shape ∧ t.columns[0]? = some (countColumn .integer [.integer 1152921504606846976, .integer 9007199254740993]) ∧
      ∃ d, t.convertColumn 0 .numeric Kind.numeric.defaultTag = (.ok (), { t with columns := [d] }) ∧
        ∃ even odd, d.cells = [even, odd] ∧ even.number? = some 1152921504606846976 ∧
          odd.number? ≠ some 9007199254740993 := by
  intro t
  refine ⟨counts_shape _, rfl, ?_⟩
  obtain ⟨d, hconverted, -, hcells⟩ :=
    convertColumn_integers (t := t) (counts_shape _) (show t.columns[0]? = some _ from rfl) rfl
      Kind.numeric.defaultTag
  refine ⟨d, hconverted, ?_⟩
  -- one cell of the new column for each integer
  obtain ⟨even, rest, ⟨n, hn, -, heven⟩, hrest, hd⟩ := List.forall₂_cons_left_iff.1 hcells
  obtain ⟨odd, others, ⟨m, hm, -, hodd⟩, hnil, hrest⟩ := List.forall₂_cons_left_iff.1 hrest
  obtain rfl := List.forall₂_nil_left_iff.1 hnil
  obtain rfl := Value.integer.inj hn
  obtain rfl := Value.integer.inj hm
  have hgreat : Format.binary64.Holds (1152921504606846976 : Int64).toInt := ⟨1, 60, by decide, by decide⟩
  have hgap : ¬Format.binary64.Holds (9007199254740993 : Int64).toInt := fun h =>
    absurd (h.lt_of_odd (by decide)) (by decide)
  exact ⟨even, odd, hd.trans (congrArg (even :: ·) hrest), heven.2 hgreat, mt hodd.1 hgap⟩

/-- **An integer is coerced to its neighbour** where the numbers have gaps. -/
theorem convertColumn_coerces :
    (counts [9007199254740993]).convertColumn 0 .numeric Kind.numeric.defaultTag =
        (.ok (), { counts [9007199254740993] with
          columns := [countColumn .numeric [.numeric (.ofInt 9007199254740992)]] }) ∧
      Cell.number? ⟨.integer 9007199254740993, Kind.integer.defaultTag⟩ = some 9007199254740993 ∧
      Cell.number? ⟨.numeric (.ofInt 9007199254740992), Kind.numeric.defaultTag⟩ = some 9007199254740992 := by
  refine ⟨convertColumn_eq_ok.2 ⟨countColumn .integer [.integer 9007199254740993], _, rfl, ⟨rfl, ?_⟩, rfl⟩, ?_, ?_⟩
  · have hneighbour : (Binary.ofInt 9007199254740992 : Binary64) = .ofInt (9007199254740993 : Int64).toInt := by
      decide +kernel
    refine .cons ?_ .nil
    rw [hneighbour]
    exact Cell.parse_integer_text rfl _
  · decide +kernel
  · decide +kernel

end Table
end TableForest
