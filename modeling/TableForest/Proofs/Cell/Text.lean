import TableForest.Cell.Basic
import TableForest.Cell.Json
import TableForest.Proofs.Cell.Integer
import TableForest.Proofs.Number.Layout

/-!
# Cells are read back from their text

The text of a cell, read under the kind of the cell, is a cell of the same text, kind and subtype.  For all but
the numbers that are none it is the very same cell.

## The architecture

* **`Binary.read?_text`**: a number that is one is read back from its text.
* **`Value.read?_toText`** and **`Cell.parse_text`**: so is every value, up to the many NaNs.
* **`Value.codec_laws`** adds which texts are integers.
-/

namespace TableForest

open Decimal

/-! ## Numbers -/

namespace Binary

/-- The numeral of a finite number has its sign, no exponent, and reads as its magnitude. -/
theorem numeral_cellNumber {x : Binary64} (h : x.isFinite = true) :
    (x.numeral cellNumber).negative = x.negative ∧ (x.numeral cellNumber).exponent = none ∧
      Format.binary64.ofDecimal (x.numeral cellNumber).significand
        (-((x.numeral cellNumber).fraction.length : Int)) = x.magnitude := by
  obtain ⟨hnegative, hmagnitude⟩ := ofDecimal_numeral cellNumber h
  have hexponent : (x.numeral cellNumber).exponent = none := by
    unfold numeral
    split
    · rfl
    · exact Scientific.exponent_positional ..
  refine ⟨hnegative, hexponent, ?_⟩
  rw [← hmagnitude, Numeral.scale, hexponent, Option.getD_none, Int.zero_sub]

/-- **A number is read back from its text.** -/
theorem read?_text {x : Binary64} (h : x.isNaN = false) : read? (x.text cellNumber) = some x := by
  have hle : x.magnitude ≤ Format.binary64.infinity := Nat.not_lt.1 (of_decide_eq_false h)
  by_cases hfinite : x.isFinite = true
  · exact read?_text_of_isFinite cellNumber hfinite
  · -- what is neither finite nor a NaN is infinite
    have hmagnitude : Format.binary64.infinity = x.magnitude :=
      Nat.le_antisymm (Nat.not_lt.1 fun hlt => hfinite (decide_eq_true hlt)) hle
    unfold text
    rw [h, if_neg Bool.false_ne_true, if_neg hfinite]
    split
    · rename_i hnegative
      have hread : FloatLiteral.read? ("-" ++ cellNumber.infinite) = some (.infinite true) := by
        decide +kernel
      unfold read?
      rw [hread, Option.map_some]
      exact congrArg some (ext_magnitude hnegative.symm hmagnitude)
    · rename_i hnegative
      have hread : FloatLiteral.read? cellNumber.infinite = some (.infinite false) := by
        decide +kernel
      unfold read?
      rw [hread, Option.map_some]
      exact congrArg some (ext_magnitude (Bool.not_eq_true _ ▸ hnegative).symm hmagnitude)

/-- What stands for no number has a text of its own. -/
theorem text_eq_nan {x : Binary64} : x.text cellNumber = cellNumber.nan ↔ x.isNaN = true := by
  constructor
  · intro htext
    by_contra hnumber
    have hback := read?_text (Bool.not_eq_true _ ▸ hnumber)
    have hnan : read? (f := .binary64) cellNumber.nan = some (.nan false) := by decide +kernel
    rw [htext, hnan] at hback
    obtain rfl := Option.some.inj hback
    exact hnumber rfl
  · intro hnan
    unfold text
    rw [if_pos hnan]

end Binary

/-! ## Values -/

/-- The exact name of a kind is read as the kind. -/
theorem Kind.ofExactName?_name (k : Kind) : Kind.ofExactName? k.name = some k := by
  cases k with
  | _ => rfl

namespace Value

theorem exists_logical {v : Value} (h : v.kind = .logical) : ∃ b, v = .logical b := by
  cases v with
  | logical b => exact ⟨b, rfl⟩
  | _ => cases h

theorem exists_integer {v : Value} (h : v.kind = .integer) : ∃ n, v = .integer n := by
  cases v with
  | integer n => exact ⟨n, rfl⟩
  | _ => cases h

theorem exists_numeric {v : Value} (h : v.kind = .numeric) : ∃ x, v = .numeric x := by
  cases v with
  | numeric x => exact ⟨x, rfl⟩
  | _ => cases h

/-- **A value is read back from its text**, and what stands for no number is read as a NaN. -/
theorem read?_toText (v : Value) :
    ∃ w, read? v.kind v.toText = some w ∧ w.toText = v.toText ∧
      ((∀ x, v = numeric x → x.isNaN = false) → w = v) := by
  cases v with
  | logical b =>
    refine ⟨logical b, ?_, rfl, fun _ => rfl⟩
    cases b with
    | false => rfl
    | true => rfl
  | integer n =>
    refine ⟨integer n, ?_, rfl, fun _ => rfl⟩
    show (readInt64? (intText n.toInt)).map integer = _
    unfold readInt64?
    rw [readInt?_intText]
    simp only
    rw [if_pos ⟨Int64.minValue_le_toInt n, Int64.toInt_le n⟩, Int64.ofInt_toInt]
    rfl
  | numeric x =>
    cases hnan : x.isNaN with
    | false =>
      refine ⟨numeric x, ?_, rfl, fun _ => rfl⟩
      show (Binary.read? (x.text cellNumber)).map numeric = _
      rw [Binary.read?_text hnan]
      rfl
    | true =>
      have htext : x.text cellNumber = cellNumber.nan := by
        unfold Binary.text
        rw [if_pos hnan]
      refine ⟨numeric (.nan false), ?_, ?_, fun h => ?_⟩
      · show (Binary.read? (x.text cellNumber)).map numeric = _
        have hread : FloatLiteral.read? cellNumber.nan = some (.nan false) := by decide +kernel
        unfold Binary.read?
        rw [htext, hread]
        rfl
      · -- All NaNs have the same text, whatever their bits are.
        show Binary.text cellNumber (.nan false) = x.text cellNumber
        rw [htext]
        rfl
      · have := h x rfl
        rw [hnan] at this
        cases this
  | text s => exact ⟨text s, rfl, rfl, fun _ => rfl⟩
  | fileLink s => exact ⟨fileLink s, rfl, rfl, fun _ => rfl⟩

/-- Two values are one, or neither stands for a number. -/
inductive Agrees : Value → Value → Prop
  | same (v : Value) : Agrees v v
  | nan {x y : Binary64} (left : x.isNaN = true) (right : y.isNaN = true) : Agrees (numeric x) (numeric y)

/-- **Values of one kind with one text agree.** -/
theorem agrees_of_toText {v w : Value} (hkind : v.kind = w.kind) (htext : v.toText = w.toText) : v.Agrees w := by
  obtain ⟨a, ha, -, hback⟩ := read?_toText v
  obtain ⟨b, hb, -, hback'⟩ := read?_toText w
  -- What is read from the text is both values, unless one of them stands for no number.
  have hread : a = b := by
    rw [hkind, htext] at ha
    exact Option.some.inj (ha.symm.trans hb)
  by_cases hnumbers : (∀ x, v = numeric x → x.isNaN = false) ∧ ∀ y, w = numeric y → y.isNaN = false
  · rw [hback hnumbers.1, hback' hnumbers.2] at hread
    subst hread
    exact .same v
  · have hnumeric : ∃ x y, v = numeric x ∧ w = numeric y := by
      cases v <;> cases w <;> simp_all [kind]
    obtain ⟨x, y, rfl, rfl⟩ := hnumeric
    have hboth : x.isNaN = true ↔ y.isNaN = true := by
      rw [← Binary.text_eq_nan, ← Binary.text_eq_nan, show x.text cellNumber = y.text cellNumber from htext]
    have hleft : x.isNaN = true := by
      by_contra hx
      have hy := mt hboth.2 hx
      simp_all
    exact .nan hleft (hboth.1 hleft)

theorem parse_eq_ok_iff {k : Kind} {s : String} {v : Value} : parse k s = .ok v ↔ read? k s = some v := by
  unfold parse
  cases read? k s with
  | none => exact iff_of_false nofun nofun
  | some w => rw [Except.ok.injEq, Option.some.injEq]

/-- What is parsed from the text of a value agrees with the value. -/
theorem exists_parse_toText (v : Value) : ∃ w, parse v.kind v.toText = .ok w ∧ v.Agrees w := by
  obtain ⟨w, hread, htext, -⟩ := read?_toText v
  exact ⟨w, parse_eq_ok_iff.2 hread, agrees_of_toText (kind_of_read? hread).symm htext.symm⟩

theorem parse_integer_eq_ok_iff {s : String} {v : Value} :
    parse .integer s = .ok v ↔
      ∃ m, Spells s.toList m ∧ (-2 ^ 63 ≤ m ∧ m < 2 ^ 63) ∧ v = .integer (.ofInt m) := by
  have hread : read? .integer s = some v ↔ ∃ n, readInt64? s = some n ∧ integer n = v := Option.map_eq_some_iff
  rw [parse_eq_ok_iff, hread]
  constructor
  · rintro ⟨n, hn, rfl⟩
    obtain ⟨m, hm, hfits, rfl⟩ := readInt64?_eq_some_iff_spells.1 hn
    exact ⟨m, hm, hfits, rfl⟩
  · rintro ⟨m, hm, hfits, rfl⟩
    exact ⟨.ofInt m, readInt64?_eq_some_iff_spells.2 ⟨m, hm, hfits, rfl⟩, rfl⟩

/-- **Writing and reading are inverse to each other**: every value is parsed from its text, and what was parsed from
any text is parsed again from its own, up to the many NaNs.  An integer is parsed from the digits of a number of
sixty-four bits with a sign or none, and is written with no plus and no superfluous zero. -/
theorem codec_laws :
    (∀ v : Value, ∃ w, parse v.kind v.toText = .ok w ∧ v.Agrees w) ∧
      (∀ kind s v, parse kind s = .ok v → ∃ w, parse kind v.toText = .ok w ∧ v.Agrees w) ∧
      (∀ s v, parse .integer s = .ok v ↔
        ∃ m, Spells s.toList m ∧ (-2 ^ 63 ≤ m ∧ m < 2 ^ 63) ∧ v = .integer (.ofInt m)) ∧
      ∀ n : Int64, Written (integer n).toText.toList n.toInt := by
  refine ⟨exists_parse_toText, fun kind s v h => ?_, fun s v => parse_integer_eq_ok_iff,
    fun n => written_intText n.toInt⟩
  rw [← kind_of_parse h]
  exact exists_parse_toText v

example : parse .integer "-9223372036854775808" = .ok (.integer Int64.minValue) ∧
    parse .integer "+007" = .ok (.integer 7) ∧
    parse .integer "9223372036854775808" = .error (.unreadable .integer "9223372036854775808") := by
  decide +kernel

end Value

/-- Two cells have one subtype and values that agree. -/
structure Cell.Agrees (c d : Cell) : Prop where
  value : c.value.Agrees d.value
  subtype : c.subtype = d.subtype

/-- **The text of a cell, read under its kind and subtype, gives a cell of the same text.** -/
theorem Cell.parse_text (c : Cell) :
    ∃ d, Cell.parse c.kind c.subtype c.text = .ok d ∧ d.text = c.text ∧ d.kind = c.kind ∧
      d.subtype = c.subtype := by
  obtain ⟨w, hread, htext, -⟩ := Value.read?_toText c.value
  refine ⟨⟨w, c.subtype⟩, ?_, htext, Value.kind_of_read? hread, rfl⟩
  unfold Cell.parse Value.parse Cell.kind Cell.text
  rw [hread]
  rfl

end TableForest
