import TableForest.Csv.Table
import TableForest.Proofs.Cell.Text

/-!
# Kinds that are inferred from the texts of cells

What the reader of CSV makes of the texts of truth values, integers and numbers.  An integer is read as itself.  A
number that is written without a point is read as an integer if it fits one, and as a number if a number holds it
exactly; one with a point is read as itself.  A negative zero is written as `-0` and read as a zero without a sign.

## The architecture

* **`Binary.writtenInteger?`** is the integer that a number is written as, if it has no point;
  **`Binary.text_of_writtenInteger?`** and **`Binary.ofInt_of_writtenInteger?`** lead from it back to the number.
* **`plainInteger?_text`**, **`plainNumber?_text`** and **`number?_text`** are the readers on texts of numbers.
* **`toText_fieldValue_numeric`** draws the conclusion for the value of a cell, whatever the kind of its column is.
-/

namespace TableForest

open Decimal

/-! ## Numbers as they are written -/

namespace Binary

/-- The integer that a number is written as, if it is written without a point. -/
def writtenInteger? (x : Binary64) : Option Int :=
  let n := x.numeral cellNumber
  if x.isFinite && n.fraction.isEmpty then some (if x.negative then -(n.whole : Int) else n.whole) else none

/-- The zero that is written as `-0`. -/
def negativeZero : Binary64 := .zero true

/-- What stands behind the sign of a numeral. -/
def unsignedChars (x : Binary64) : List Char :=
  let n := x.numeral cellNumber
  natChars n.whole ++ if n.fraction.isEmpty then [] else '.' :: n.fraction.map digitChar

variable {x : Binary64}

theorem isNaN_of_isFinite (h : x.isFinite = true) : x.isNaN = false := by
  have hlt : x.magnitude < Format.binary64.infinity := of_decide_eq_true h
  exact decide_eq_false (by omega)

theorem toList_text (h : x.isFinite = true) :
    (x.text cellNumber).toList = (if x.negative then ['-'] else []) ++ x.unsignedChars := by
  obtain ⟨hnegative, hexponent, -⟩ := numeral_cellNumber h
  unfold text
  rw [isNaN_of_isFinite h, if_neg Bool.false_ne_true, if_pos h, String.toList_ofList]
  simp only [Numeral.chars, hnegative, hexponent, Numeral.exponentChars, unsignedChars, List.append_nil,
    List.append_assoc]

theorem splitSign_text (h : x.isFinite = true) :
    splitSign (x.text cellNumber).toList = (x.negative, x.unsignedChars) := by
  rw [toList_text h]
  cases x.negative with
  | true => rfl
  | false => exact splitSign_map_digitChar (digits _) _ (digits_ne_nil _)

theorem unsigned_text (h : x.isFinite = true) : Csv.unsigned (x.text cellNumber) = x.unsignedChars := by
  rw [Csv.unsigned, splitSign_text h]

/-- Infinities and what is no number are written as words. -/
theorem text_of_not_finite (h : x.isFinite = false) :
    x.text cellNumber = "NaN" ∨ x.text cellNumber = "inf" ∨ x.text cellNumber = "-inf" := by
  unfold text
  rw [h]
  split
  · exact .inl rfl
  · rw [if_neg Bool.false_ne_true]
    split
    · exact .inr (.inr (by decide))
    · exact .inr (.inl rfl)

theorem fraction_of_writtenInteger? {n : Int} (h : x.writtenInteger? = some n) :
    x.isFinite = true ∧ (x.numeral cellNumber).fraction = [] ∧
      n = if x.negative then -((x.numeral cellNumber).whole : Int) else (x.numeral cellNumber).whole := by
  unfold writtenInteger? at h
  simp only [Option.ite_none_right_eq_some, Bool.and_eq_true, List.isEmpty_iff, Option.some.injEq] at h
  exact ⟨h.1.1, h.1.2, h.2.symm⟩

theorem unsignedChars_of_writtenInteger? {n : Int} (h : x.writtenInteger? = some n) :
    x.unsignedChars = natChars (x.numeral cellNumber).whole := by
  simp [unsignedChars, (fraction_of_writtenInteger? h).2.1]

theorem unsignedChars_of_point (hfinite : x.isFinite = true) (h : x.writtenInteger? = none) :
    x.unsignedChars = natChars (x.numeral cellNumber).whole ++
      '.' :: (x.numeral cellNumber).fraction.map digitChar := by
  have hfraction : (x.numeral cellNumber).fraction.isEmpty = false := by
    simpa [writtenInteger?, hfinite] using h
  simp [unsignedChars, hfraction]

/-- A number whose numeral is a negative zero is the negative zero. -/
theorem eq_negativeZero {n : Int} (h : x.writtenInteger? = some n) (hnegative : x.negative = true) (hn : n = 0) :
    x = negativeZero := by
  obtain ⟨hfinite, hfraction, hvalue⟩ := fraction_of_writtenInteger? h
  obtain ⟨-, -, hmagnitude⟩ := numeral_cellNumber hfinite
  have hwhole : (x.numeral cellNumber).whole = 0 := by
    rw [hnegative, if_pos rfl] at hvalue
    omega
  rw [Numeral.significand_eq, hfraction, hwhole] at hmagnitude
  exact ext_magnitude hnegative hmagnitude.symm

/-- A number without a point is written as its integer, but for the negative zero. -/
theorem text_of_writtenInteger? {n : Int} (h : x.writtenInteger? = some n) (hx : x ≠ negativeZero) :
    x.text cellNumber = intText n := by
  obtain ⟨hfinite, -, hvalue⟩ := fraction_of_writtenInteger? h
  rw [← String.toList_inj, toList_text hfinite, unsignedChars_of_writtenInteger? h]
  cases hnegative : x.negative with
  | false =>
    rw [hnegative, if_neg Bool.false_ne_true] at hvalue
    rw [hvalue]
    exact (String.toList_ofList).symm
  | true =>
    rw [hnegative, if_pos rfl] at hvalue
    cases hwhole : (x.numeral cellNumber).whole with
    | zero => exact absurd (eq_negativeZero h hnegative (by omega)) hx
    | succ m =>
      rw [hvalue, hwhole]
      exact (String.toList_ofList).symm

/-- The number that is nearest to the integer is the number itself, but for the negative zero. -/
theorem ofInt_of_writtenInteger? {n : Int} (h : x.writtenInteger? = some n) (hx : x ≠ negativeZero) :
    ofInt n = x := by
  obtain ⟨hfinite, hfraction, hvalue⟩ := fraction_of_writtenInteger? h
  obtain ⟨-, -, hmagnitude⟩ := numeral_cellNumber hfinite
  have hsignificand : (x.numeral cellNumber).significand = (x.numeral cellNumber).whole := by
    rw [Numeral.significand_eq, hfraction]
    simp [ofDigits]
  rw [hsignificand, hfraction] at hmagnitude
  have hsign : decide (n < 0) = x.negative := by
    cases hnegative : x.negative with
    | false =>
      rw [hnegative, if_neg Bool.false_ne_true] at hvalue
      exact decide_eq_false (by omega)
    | true =>
      have hne : n ≠ 0 := fun hn => hx (eq_negativeZero h hnegative hn)
      rw [hnegative, if_pos rfl] at hvalue
      exact decide_eq_true (by omega)
  have habs : n.natAbs = (x.numeral cellNumber).whole := by
    rw [hvalue]
    split <;> omega
  refine ext_magnitude hsign ?_
  show Format.binary64.round n.natAbs 1 = x.magnitude
  rw [habs]
  rcases Nat.eq_zero_or_pos x.magnitude with hzero | hpos
  · -- the numeral of a zero is set apart, since no digits are looked for
    have hwhole : (x.numeral cellNumber).whole = 0 := by
      unfold numeral
      rw [if_pos hzero]
    rw [hwhole, hzero]
    rfl
  · have hround := Format.round_of_ofDecimal hmagnitude hpos (of_decide_eq_true hfinite)
    simpa using hround

end Binary

namespace Csv

open Binary

variable {x : Binary64}

/-! ## What the readers make of numbers -/

/-- A sign and digits without superfluous zeros are read as an integer if it fits. -/
theorem plainInteger?_of_splitSign {s : String} {negative : Bool} {n : Nat} {value : Int}
    (hsplit : splitSign s.toList = (negative, natChars n)) (hvalue : value = if negative then -(n : Int) else n) :
    plainInteger? s =
      if Int64.minValue.toInt ≤ value ∧ value ≤ Int64.maxValue.toInt then some (.ofInt value) else none := by
  -- what stands behind the sign are the digits of the number, without zeros in front
  have hunsigned : unsigned s = natChars n := by rw [unsigned, hsplit]
  have hread : readInt? s.toList = some value := by
    rw [hvalue]
    exact readInt?_of_splitSign hsplit (readNat?_natChars n)
  have hsome : (natChars n).isEmpty = false := List.isEmpty_eq_false_iff.2 (natChars_ne_nil n)
  have hzero : ¬(1 < (natChars n).length ∧ (natChars n).head? = some '0') := by
    rintro ⟨hlength, hhead⟩
    rw [natChars_of_head? hhead] at hlength
    exact absurd hlength (by decide)
  have hdigits : (natChars n).all isDigit = true :=
    List.all_eq_true.2 fun c hc => isDigit_of_mem_natChars hc
  unfold plainInteger?
  rw [hunsigned, if_neg (by simpa [hsome, hdigits] using hzero), readInt64?, hread]

/-- **An integer is read as itself.** -/
theorem plainInteger?_intText (n : Int64) : plainInteger? (intText n.toInt) = some n := by
  have hvalue : n.toInt = if decide (n.toInt < 0) = true then -(n.toInt.natAbs : Int) else n.toInt.natAbs := by
    by_cases hnegative : n.toInt < 0
    · rw [if_pos (decide_eq_true hnegative)]
      omega
    · rw [if_neg (by simpa using hnegative)]
      omega
  rw [plainInteger?_of_splitSign (splitSign_intText n.toInt) hvalue,
    if_pos ⟨Int64.minValue_le_toInt n, Int64.toInt_le n⟩, Int64.ofInt_toInt]

/-- **A number is read as an integer if it is written as one that fits.** -/
theorem plainInteger?_text (x : Binary64) :
    plainInteger? (x.text cellNumber) = x.writtenInteger?.bind fun n =>
      if Int64.minValue.toInt ≤ n ∧ n ≤ Int64.maxValue.toInt then some (.ofInt n) else none := by
  cases hwritten : x.writtenInteger? with
  | some n =>
    obtain ⟨hfinite, -, hvalue⟩ := fraction_of_writtenInteger? hwritten
    have hsplit := splitSign_text hfinite
    rw [unsignedChars_of_writtenInteger? hwritten] at hsplit
    exact plainInteger?_of_splitSign hsplit hvalue
  | none =>
    cases hfinite : x.isFinite with
    | false => rcases text_of_not_finite hfinite with htext | htext | htext <;> rw [htext] <;> decide +kernel
    | true =>
      -- the point is no digit
      have hpoint : ¬x.unsignedChars.all isDigit = true := by
        simp [unsignedChars_of_point hfinite hwritten, show isDigit '.' = false by decide]
      unfold plainInteger?
      rw [unsigned_text hfinite]
      simp [hpoint]

/-- Neither digits nor a sign are a point or the mark of an exponent. -/
theorem not_mem_integer (negative : Bool) (n : Nat) {c : Char} (h : isDigit c = false) (hminus : c ≠ '-') :
    c ∉ (if negative then ['-'] else []) ++ natChars n := by
  intro hmem
  rcases List.mem_append.1 hmem with hsign | hdigit
  · cases negative with
    | true => exact hminus (List.mem_singleton.1 hsign)
    | false => cases hsign
  · rw [isDigit_of_mem_natChars hdigit] at h
    cases h

/-- **A number is read as itself if it is written with a point.** -/
theorem plainNumber?_text (x : Binary64) :
    plainNumber? (x.text cellNumber) =
      if x.isFinite = true ∧ x.writtenInteger? = none then some x else none := by
  cases hfinite : x.isFinite with
  | false =>
    rw [if_neg (by simp)]
    rcases text_of_not_finite hfinite with htext | htext | htext <;> rw [htext] <;> decide +kernel
  | true =>
    unfold plainNumber?
    rw [unsigned_text hfinite, toList_text hfinite]
    cases hwritten : x.writtenInteger? with
    | some n =>
      -- digits behind a sign are no text for a number
      rw [unsignedChars_of_writtenInteger? hwritten, if_pos, if_neg (by simp)]
      have habsent : ∀ c : Char, isDigit c = false → c ≠ '-' →
          ((if x.negative then ['-'] else []) ++ natChars (x.numeral cellNumber).whole).contains c = false := by
        intro c hc hminus
        simpa using not_mem_integer x.negative _ hc hminus
      rw [habsent '.' (by decide) (by decide), habsent 'e' (by decide) (by decide),
        habsent 'E' (by decide) (by decide)]
      rfl
    | none =>
      -- the point is there, and a zero in front of it stands alone
      have hchars := unsignedChars_of_point hfinite hwritten
      have hpoint : ((if x.negative then ['-'] else []) ++ x.unsignedChars).contains '.' = true := by
        simp [hchars]
      have hzero : x.unsignedChars.head? = some '0' → x.unsignedChars.take 2 = ['0', '.'] := by
        intro hhead
        have hwhole : (natChars (x.numeral cellNumber).whole).head? = some '0' := by
          have hne := natChars_ne_nil (x.numeral cellNumber).whole
          rwa [hchars, List.head?_append, List.head?_eq_some_head hne, Option.some_or,
            ← List.head?_eq_some_head] at hhead
        rw [hchars, natChars_of_head? hwhole]
        rfl
      dsimp only
      rw [hpoint, if_neg (by simp), if_neg (by simpa using fun _ => hzero), read?_text (isNaN_of_isFinite hfinite)]
      simp [hfinite]

/-- An integer that a number holds exactly fits an integer. -/
theorem fits_of_exact {n : Int} (h : -maxExactInteger ≤ n ∧ n ≤ maxExactInteger) :
    Int64.minValue.toInt ≤ n ∧ n ≤ Int64.maxValue.toInt := by
  have hexact : maxExactInteger = 9007199254740992 := by decide
  have hmin : Int64.minValue.toInt = -9223372036854775808 := by decide
  have hmax : Int64.maxValue.toInt = 9223372036854775807 := by decide
  omega

/-- **A number is read as a number if it has a point or is held exactly.** -/
theorem number?_text (x : Binary64) :
    number? (x.text cellNumber) = match x.writtenInteger? with
      | some n => if -maxExactInteger ≤ n ∧ n ≤ maxExactInteger then some (.ofInt n) else none
      | none => if x.isFinite = true then some x else none := by
  unfold number?
  rw [plainInteger?_text, plainNumber?_text]
  cases x.writtenInteger? with
  | none => simp
  | some n =>
    rw [Option.bind_some]
    by_cases hfits : Int64.minValue.toInt ≤ n ∧ n ≤ Int64.maxValue.toInt
    · simp only [if_pos hfits, toInt_ofInt_of_fits hfits]
    · simp only [if_neg hfits, if_neg (mt fits_of_exact hfits), reduceCtorEq, and_false, if_false]

/-- A number whose text is read as an integer. -/
def ReadAsInteger (x : Binary64) : Prop :=
  ∃ n, x.writtenInteger? = some n ∧ Int64.minValue.toInt ≤ n ∧ n ≤ Int64.maxValue.toInt

/-- A number whose text is read as a number, or as an integer. -/
def ReadAsNumber (x : Binary64) : Prop :=
  x.isFinite = true ∧ ∀ n, x.writtenInteger? = some n → -maxExactInteger ≤ n ∧ n ≤ maxExactInteger

theorem isSome_plainInteger?_text : (plainInteger? (x.text cellNumber)).isSome = true ↔ ReadAsInteger x := by
  rw [plainInteger?_text, ReadAsInteger]
  cases x.writtenInteger? with
  | none => simp
  | some n => simp

theorem isSome_number?_text : (number? (x.text cellNumber)).isSome = true ↔ ReadAsNumber x := by
  rw [number?_text, ReadAsNumber]
  cases hwritten : x.writtenInteger? with
  | none => simp
  | some n => simp [(fraction_of_writtenInteger? hwritten).1]

/-! ## What the reader makes of words -/

theorem word?_eq_none {s : String}
    (h : ∀ c, s.toList.head? = some c → c.toLower ≠ 't' ∧ c.toLower ≠ 'f') : word? s = none := by
  have hne : ∀ w : String, (w.toList.head? = some 't' ∨ w.toList.head? = some 'f') → Text.lowerAscii s ≠ w := by
    rintro w hw rfl
    rw [Text.lowerAscii, String.toList_ofList, List.head?_map, Option.map_eq_some_iff,
      Option.map_eq_some_iff] at hw
    rcases hw with ⟨c, hc, hlower⟩ | ⟨c, hc, hlower⟩
    · exact (h c hc).1 hlower
    · exact (h c hc).2 hlower
  unfold word?
  dsimp only
  rw [if_neg (hne "true" (.inl (by decide))), if_neg (hne "false" (.inr (by decide)))]

/-- The first character of a number is a digit, a sign, or that of a name of what is not finite. -/
theorem word?_text (x : Binary64) : word? (x.text cellNumber) = none := by
  cases hfinite : x.isFinite with
  | false => rcases text_of_not_finite hfinite with htext | htext | htext <;> rw [htext] <;> decide
  | true =>
    have hdigit : ∀ d : Digit, (digitChar d).toLower ≠ 't' ∧ (digitChar d).toLower ≠ 'f' := by decide
    apply word?_eq_none
    intro c hc
    rw [toList_text hfinite] at hc
    cases hnegative : x.negative with
    | true =>
      obtain rfl : '-' = c := by simpa [hnegative] using hc
      decide
    | false =>
      obtain ⟨d, ds, hdigits⟩ := List.exists_cons_of_ne_nil (digits_ne_nil (x.numeral cellNumber).whole)
      obtain rfl : digitChar d = c := by simpa [hnegative, unsignedChars, natChars, hdigits] using hc
      exact hdigit d

/-! ## Values of columns -/

/-- A truth value is kept, whatever the kind of its column is. -/
theorem toText_fieldValue_logical (b : Bool) (kind : Kind) :
    (fieldValue kind (Value.logical b).toText).toText = (Value.logical b).toText := by
  cases b <;> cases kind <;> decide +kernel

/-- **A number is kept, whatever the kind of its column is**, unless it is the negative zero. -/
theorem toText_fieldValue_numeric {kind : Kind} (h : x = negativeZero → kind ≠ .integer ∧ kind ≠ .numeric) :
    (fieldValue kind (x.text cellNumber)).toText = x.text cellNumber := by
  cases kind with
  | text => rfl
  | fileLink => rfl
  | logical =>
    rw [fieldValue, word?_text]
    rfl
  | integer =>
    -- the one number whose sign is lost by an integer is excluded
    have hx : x ≠ negativeZero := fun heq => (h heq).1 rfl
    rw [fieldValue, plainInteger?_text]
    cases hwritten : x.writtenInteger? with
    | none => rfl
    | some n =>
      rw [Option.bind_some]
      by_cases hfits : Int64.minValue.toInt ≤ n ∧ n ≤ Int64.maxValue.toInt
      · rw [if_pos hfits, text_of_writtenInteger? hwritten hx, Option.map_some, Option.getD_some, Value.toText,
          toInt_ofInt_of_fits hfits]
      · rw [if_neg hfits]
        rfl
  | numeric =>
    have hx : x ≠ negativeZero := fun heq => (h heq).2 rfl
    rw [fieldValue, number?_text]
    cases hwritten : x.writtenInteger? with
    -- a number that is no integer is read to the nearest, which is the one that was written
    | none =>
      dsimp only
      split
      · rfl
      · rfl
    | some n =>
      dsimp only
      split
      · rw [ofInt_of_writtenInteger? hwritten hx]
        rfl
      · rfl

/-- The negative zero is read as a zero without a sign. -/
theorem toText_fieldValue_negativeZero {kind : Kind} (h : kind = .integer ∨ kind = .numeric) :
    (fieldValue kind (negativeZero.text cellNumber)).toText ≠ negativeZero.text cellNumber := by
  rcases h with rfl | rfl
  · decide +kernel
  · decide +kernel

end Csv
end TableForest
