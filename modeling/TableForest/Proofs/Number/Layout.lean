import Mathlib.Algebra.Order.Field.Rat
import Mathlib.Tactic.NormNum
import TableForest.Number.Layout
import TableForest.Number.Literal
import TableForest.Proofs.Number.Shortest

/-!
# Numbers are read back, however they are laid out

A layout sets the digits of a number out in one form or another, and the value stays the same.  So a finite number is
read back from its text, whichever layout the text is written in.

## The architecture

* **`Numeral.value`** and **`Scientific.value`** are the numbers that numerals and decimals stand for, without their
  sign; **`NumberLayout.value_arrange`** says that a layout keeps them.
* **`FloatLiteral.read?_chars`** reads a numeral as a literal of its digits and of the power of ten that the last of
  them counts.
* **`Format.ofDecimal_of_value`** reads a decimal by its value, and **`Binary.read?_text_of_isFinite`** puts all of it
  together.
-/

namespace TableForest

open Decimal

/-! ## Values -/

namespace Numeral

/-- The number that all digits of a numeral spell, as if there were no point. -/
def significand (n : Numeral) : Nat :=
  ofDigits (digits n.whole ++ n.fraction)

theorem significand_eq (n : Numeral) :
    n.significand = n.whole * 10 ^ n.fraction.length + ofDigits n.fraction := by
  unfold significand
  rw [ofDigits_append, ofDigits_digits]

/-- The power of ten that the last digit counts. -/
def scale (n : Numeral) : Int :=
  n.exponent.getD 0 - n.fraction.length

/-- The number that a numeral stands for, without its sign. -/
def value (n : Numeral) : ℚ :=
  n.significand * 10 ^ n.scale

end Numeral

/-- The number that a decimal stands for. -/
def Scientific.value (s : Scientific) : ℚ :=
  ofDigits s.digits * 10 ^ (s.point - s.digits.length)

theorem ten_zpow_add (m n : Int) : (10 : ℚ) ^ (m + n) = 10 ^ m * 10 ^ n :=
  zpow_add₀ (by norm_num) m n

namespace Scientific

theorem value_ofSignificand (m : Nat) (e : Int) : (ofSignificand m e).value = m * 10 ^ e := by
  obtain ⟨k, hm, hpoint⟩ := exists_ofSignificand m e
  unfold value
  generalize ofSignificand m e = s at hm hpoint
  rw [hpoint, show (s.digits.length + k + e - s.digits.length : Int) = k + e by omega, ten_zpow_add, zpow_natCast, hm]
  push_cast
  ring

/-- **Setting digits out around a point keeps their value.** -/
theorem value_positional (wholeMark negative : Bool) (s : Scientific) :
    (s.positional wholeMark negative).value = s.value := by
  unfold Numeral.value value
  rw [Numeral.significand_eq]
  unfold positional Numeral.scale
  simp only
  split
  · -- the point stands before all digits: zeros are put between
    rename_i hpoint
    simp only [Nat.zero_mul, Nat.zero_add, ofDigits_append, ofDigits_replicate_zero, List.length_append,
      List.length_replicate, Option.getD_none]
    rw [show (0 - ((-s.point).toNat + s.digits.length : Nat) : Int) = s.point - s.digits.length by omega]
  · rename_i hpoint
    split
    · -- it stands behind all digits: zeros fill up to it, and one more may mark the whole number
      rename_i hlength
      have hfill : (s.point - s.digits.length : Int) = ((s.point.toNat - s.digits.length : Nat) : Int) := by omega
      rw [hfill, zpow_natCast]
      cases wholeMark with
      | false => simp [ofDigits]
      | true =>
        simp only [if_true, List.length_singleton, Option.getD_none, Nat.pow_one]
        show ((ofDigits s.digits * 10 ^ (s.point.toNat - s.digits.length) * 10 + 0 : Nat) : ℚ) * 10 ^ (-1 : Int) = _
        push_cast
        rw [zpow_neg_one]
        ring
    · -- it stands among the digits: they are cut there
      rename_i hlength
      simp only [ofDigits_take_drop, Option.getD_none]
      rw [List.length_drop, show (0 - (s.digits.length - s.point.toNat : Nat) : Int) = s.point - s.digits.length by omega]

/-- So does setting them out behind the first of them, with an exponent. -/
theorem value_withExponent (negative : Bool) (s : Scientific) : (s.withExponent negative).value = s.value := by
  unfold Numeral.value value
  rw [Numeral.significand_eq]
  unfold withExponent Numeral.scale
  obtain ⟨ds, point⟩ := s
  cases ds with
  | nil => simp [ofDigits]
  | cons d ds =>
    have hsplit : ofDigits ([d] ++ ds) = ofDigits [d] * 10 ^ ds.length + ofDigits ds := ofDigits_append [d] ds
    rw [List.singleton_append] at hsplit
    simp only [List.take_succ_cons, List.take_zero, List.drop_succ_cons, List.drop_zero, Option.getD_some,
      List.length_cons, hsplit]
    rw [show (point - 1 - ds.length : Int) = point - (ds.length + 1 : Nat) by omega]

/-- The last digit is written no further right than it stands, up to the zero that marks a whole number. -/
theorem le_scale_positional (wholeMark negative : Bool) (s : Scientific) :
    min 0 (s.point - s.digits.length) - 1 ≤ (s.positional wholeMark negative).scale := by
  unfold positional Numeral.scale
  simp only
  split
  · simp only [List.length_append, List.length_replicate, Option.getD_none]
    omega
  · split
    · cases wholeMark with
      | false => simp only [Bool.false_eq_true, if_false, List.length_nil, Option.getD_none]; omega
      | true => simp only [if_true, List.length_singleton, Option.getD_none]; omega
    · simp only [List.length_drop, Option.getD_none]
      omega

theorem le_scale_withExponent (negative : Bool) (s : Scientific) :
    min 0 (s.point - s.digits.length) - 1 ≤ (s.withExponent negative).scale := by
  unfold withExponent Numeral.scale
  simp only [Option.getD_some, List.length_drop]
  omega

theorem negative_positional (wholeMark negative : Bool) (s : Scientific) :
    (s.positional wholeMark negative).negative = negative := by
  unfold positional
  simp only
  split
  · rfl
  · split
    · rfl
    · rfl

theorem exponent_positional (wholeMark negative : Bool) (s : Scientific) :
    (s.positional wholeMark negative).exponent = none := by
  unfold positional
  simp only
  split
  · rfl
  · split
    · rfl
    · rfl

end Scientific

namespace NumberLayout

variable (layout : NumberLayout) (negative : Bool) (s : Scientific)

/-- A layout decides between the two forms. -/
theorem arrange_cases :
    layout.arrange negative s = s.positional layout.wholeMark negative ∨
      layout.arrange negative s = s.withExponent negative := by
  unfold arrange
  split
  · exact .inl rfl
  · split
    · exact .inl rfl
    · exact .inr rfl

/-- **A layout keeps the value of a decimal.** -/
theorem value_arrange : (layout.arrange negative s).value = s.value := by
  rcases layout.arrange_cases negative s with h | h
  · rw [h, Scientific.value_positional]
  · rw [h, Scientific.value_withExponent]

theorem le_scale_arrange : min 0 (s.point - s.digits.length) - 1 ≤ (layout.arrange negative s).scale := by
  rcases layout.arrange_cases negative s with h | h
  · rw [h]
    exact Scientific.le_scale_positional ..
  · rw [h]
    exact Scientific.le_scale_withExponent ..

theorem negative_arrange : (layout.arrange negative s).negative = negative := by
  rcases layout.arrange_cases negative s with h | h
  · rw [h, Scientific.negative_positional]
  · rw [h]
    rfl

end NumberLayout

/-! ## Literals -/

namespace FloatLiteral

theorem readExponent?_exponentChars (plus : Bool) (e : Option Int) :
    readExponent? (Numeral.exponentChars plus e) = some (e.getD 0) := by
  cases e with
  | none => rfl
  | some e =>
    -- a numeral's exponent is read in the same way
    obtain ⟨k, hk, heq⟩ := Option.map_eq_some_iff.1 (Numeral.readExponent?_exponentChars plus (some e))
    obtain rfl := Option.some.inj heq
    exact hk

/-- Digits with or without a point and an exponent are read as their significand and the power of ten that the last
of them counts. -/
theorem readFinite?_append (negative plus : Bool) (whole : Nat) (fraction : List Digit) (exponent : Option Int) :
    readFinite? negative (natChars whole ++ ((if fraction.isEmpty then [] else '.' :: fraction.map digitChar)
      ++ Numeral.exponentChars plus exponent)) =
      some (.finite negative (ofDigits (digits whole ++ fraction)) (exponent.getD 0 - fraction.length)) := by
  have hread : readNat? (natChars whole ++ fraction.map digitChar) =
      some (ofDigits (digits whole ++ fraction)) := by
    unfold natChars
    rw [← List.map_append, readNat?_map_digitChar (List.append_ne_nil_of_left_ne_nil (digits_ne_nil whole) _)]
  have hexponent := readExponent?_exponentChars plus exponent
  have hend := Numeral.startsNoDigit_exponentChars plus exponent
  unfold readFinite?
  by_cases hempty : fraction.isEmpty
  · obtain rfl := List.isEmpty_iff.1 hempty
    have hspan := spanDigits_append (digits whole) hend
    rw [List.map_nil] at hread
    rw [if_pos hempty, List.nil_append]
    unfold natChars at hread ⊢
    -- an exponent does not start with a point
    have hpoint : ∀ cs, Numeral.exponentChars plus exponent ≠ '.' :: cs := by
      intro cs heq
      cases exponent with
      | none => cases heq
      | some e => exact absurd (List.cons.inj heq).1 (by decide)
    simp only [hspan]
    split
    · rename_i significand found hfound hfound'
      rw [hread] at hfound
      rw [hexponent] at hfound'
      obtain rfl := Option.some.inj hfound
      obtain rfl := Option.some.inj hfound'
      rfl
    · rename_i hnone
      exact absurd hexponent (hnone _ _ hread)
  · rw [if_neg hempty, List.cons_append]
    have hpoint : StartsNoDigit ('.' :: (fraction.map digitChar ++ Numeral.exponentChars plus exponent)) :=
      startsNoDigit_cons (by decide)
    have hspan := spanDigits_append (digits whole) hpoint
    have hspan' := spanDigits_append fraction hend
    unfold natChars at hread ⊢
    simp only [hspan, hspan', hread, hexponent, List.length_map]

theorem toLower_ne_of_digit {ds : List Digit} (hne : ds ≠ []) (rest : List Char) {word : String}
    (hword : ∀ d : Digit, word.toList.head? ≠ some (digitChar d).toLower) :
    (String.ofList (ds.map digitChar ++ rest)).toLower ≠ word := by
  intro heq
  obtain ⟨d, ds, rfl⟩ := List.exists_cons_of_ne_nil hne
  refine hword d ?_
  rw [← heq]
  unfold String.toLower
  rw [String.toList_map, String.toList_ofList]
  rfl

/-- **A numeral is read as a literal** of its sign, its digits and its scale. -/
theorem read?_chars (plus : Bool) (n : Numeral) :
    read? (String.ofList (n.chars plus)) = some (.finite n.negative n.significand n.scale) := by
  obtain ⟨negative, whole, fraction, exponent⟩ := n
  let rest := (if fraction.isEmpty then [] else '.' :: fraction.map digitChar) ++ Numeral.exponentChars plus exponent
  have hchars : Numeral.chars plus ⟨negative, whole, fraction, exponent⟩ =
      (if negative then ['-'] else []) ++ (natChars whole ++ rest) := by
    simp only [Numeral.chars, rest, List.append_assoc]
  have hsplit : splitSign ((if negative then ['-'] else []) ++ (natChars whole ++ rest)) =
      (negative, natChars whole ++ rest) := by
    cases negative with
    | true => rfl
    | false => exact splitSign_map_digitChar (digits whole) rest (digits_ne_nil whole)
  -- A numeral is none of the words for infinity and NaN, since these start with letters.
  have hword : ∀ word : String, (∀ d : Digit, word.toList.head? ≠ some (digitChar d).toLower) →
      (String.ofList (natChars whole ++ rest)).toLower ≠ word :=
    fun word => toLower_ne_of_digit (digits_ne_nil whole) rest
  unfold read?
  rw [String.toList_ofList, hchars, hsplit]
  simp only [hword "inf" (by decide), hword "infinity" (by decide), hword "nan" (by decide), decide_false,
    Bool.or_false, Bool.false_eq_true, if_false]
  exact readFinite?_append negative plus whole fraction exponent

end FloatLiteral

/-! ## Numbers -/

namespace Format

/-- A multiple of a power as a fraction. -/
theorem natCast_div_pow (b m : Nat) (e : Int) :
    ((m * b ^ e.toNat : Nat) : ℚ) / (b ^ (-e).toNat : Nat) = m * b ^ e := by
  push_cast
  rcases Int.le_total 0 e with hpos | hneg
  · obtain ⟨k, rfl⟩ := Int.eq_ofNat_of_zero_le hpos
    simp
  · obtain ⟨k, hk⟩ := Int.eq_ofNat_of_zero_le (Int.neg_nonneg_of_nonpos hneg)
    obtain rfl : e = -k := by omega
    simp [div_eq_mul_inv]

theorem natCast_div_ten_pow (m : Nat) (e : Int) :
    ((m * 10 ^ e.toNat : Nat) : ℚ) / (10 ^ (-e).toNat : Nat) = m * 10 ^ e := by
  have hpow := natCast_div_pow 10 m e
  rwa [Nat.cast_ofNat] at hpow

/-- A fraction in units of a power. -/
theorem natCast_div_mul_pow (b num den : Nat) (e : Int) :
    ((num * b ^ (-e).toNat : Nat) : ℚ) / (den * b ^ e.toNat : Nat) = num / den / b ^ e := by
  have hpow := natCast_div_pow b num (-e)
  rw [Int.neg_neg, zpow_neg] at hpow
  calc ((num * b ^ (-e).toNat : Nat) : ℚ) / (den * b ^ e.toNat : Nat)
      = ((num * b ^ (-e).toNat : Nat) : ℚ) / (b ^ e.toNat : Nat) / den := by
        rw [Nat.cast_mul den, div_div, mul_comm (den : ℚ)]
    _ = num / den / b ^ e := by
        rw [hpow]
        ring

/-- Fractions of one value round alike. -/
theorem round_congr_div {f : Format} (hp : 0 < f.precision) {num den num' den' : Nat} (hden : den ≠ 0) (hden' : den' ≠ 0)
    (h : (num : ℚ) / den = num' / den') : f.round num den = f.round num' den' := by
  refine round_congr hp hden hden' ?_
  rw [div_eq_div_iff (Nat.cast_ne_zero.2 hden) (Nat.cast_ne_zero.2 hden')] at h
  exact_mod_cast h

/-- Decimals of one value round alike. -/
theorem round_ten_congr {f : Format} (hp : 0 < f.precision) {m m' : Nat} {e e' : Int}
    (h : (m : ℚ) * 10 ^ e = m' * 10 ^ e') :
    f.round (m * 10 ^ e.toNat) (10 ^ (-e).toNat) = f.round (m' * 10 ^ e'.toNat) (10 ^ (-e').toNat) := by
  refine round_congr_div hp (Nat.pow_pos (by decide)).ne' (Nat.pow_pos (by decide)).ne' ?_
  rw [natCast_div_ten_pow, natCast_div_ten_pow, h]

variable {significand magnitude : Nat} {exponent : Int}

/-- A decimal whose value rounds to a positive finite magnitude reads as this magnitude, if it has not thousands of
digits behind the point. -/
theorem ofDecimal_of_round_ten (hexponent : -4000 ≤ exponent)
    (h : binary64.round (significand * 10 ^ exponent.toNat) (10 ^ (-exponent).toNat) = magnitude) (hpos : 0 < magnitude)
    (hfinite : magnitude < binary64.infinity) : binary64.ofDecimal significand exponent = magnitude := by
  rcases Int.le_total exponent 0 with hneg | hnonneg
  · obtain ⟨places, hplaces⟩ := Int.eq_ofNat_of_zero_le (Int.neg_nonneg_of_nonpos hneg)
    obtain rfl : exponent = -places := by omega
    refine ofDecimal_of_round (by omega) ?_ hpos hfinite
    rw [← h, show (-(places : Int)).toNat = 0 by omega, show (-(-(places : Int))).toNat = places by omega,
      Nat.pow_zero, Nat.mul_one]
  · obtain ⟨k, rfl⟩ := Int.eq_ofNat_of_zero_le hnonneg
    -- What rounds to a finite magnitude is not too great, so the power of ten is formed.
    have hround : binary64.round (significand * 10 ^ k) 1 = magnitude := by simpa using h
    have hlt : significand * 10 ^ k < 2 ^ 1026 * 1 :=
      lt_of_round_lt_infinity (f := binary64) (by decide) (by decide) (by omega) (by decide)
    have hne : significand ≠ 0 := by
      rintro rfl
      rw [Nat.zero_mul] at hround
      exact hpos.ne' hround.symm
    have hlow : 2 ^ significand.log2 ≤ significand := Nat.log2_self_le hne
    have hsmall : significand.log2 + 3 * k < 1026 := by
      refine (Nat.pow_lt_pow_iff_right (a := 2) (by decide)).1 ?_
      calc 2 ^ (significand.log2 + 3 * k) = 2 ^ significand.log2 * 8 ^ k := by
            rw [Nat.pow_add, Nat.pow_mul]
        _ ≤ significand * 10 ^ k := Nat.mul_le_mul hlow (Nat.pow_le_pow_left (by decide) k)
        _ < 2 ^ 1026 := by rwa [Nat.mul_one] at hlt
    unfold ofDecimal
    rw [if_neg hne]
    simp only
    rw [if_neg (by omega), if_neg (by omega)]
    exact h

end Format

namespace Binary

theorem ext_magnitude {f : Format} {x y : Binary f} (hnegative : x.negative = y.negative)
    (hmagnitude : x.magnitude = y.magnitude) : x = y := by
  cases x
  cases y
  obtain rfl := hnegative
  obtain rfl := hmagnitude
  rfl

/-- The numeral of a positive finite number stands for a decimal that rounds to it. -/
theorem exists_numeral (layout : NumberLayout) {x : Binary64} (hpos : 0 < x.magnitude) (h : x.isFinite = true) :
    ∃ m e, x.numeral layout = layout.arrange x.negative (.ofSignificand m e) ∧
      (x.numeral layout).value = m * 10 ^ e ∧ -1101 ≤ (x.numeral layout).scale ∧
      Format.binary64.round (m * 10 ^ e.toNat) (10 ^ (-e).toNat) = x.magnitude := by
  obtain ⟨m, e, hshortest, hexponent, hround⟩ := Format.exists_shortest layout.tie hpos (of_decide_eq_true h)
  have hnumeral : x.numeral layout = layout.arrange x.negative (.ofSignificand m e) := by
    unfold numeral
    rw [if_neg (Nat.pos_iff_ne_zero.1 hpos), hshortest]
  refine ⟨m, e, hnumeral, ?_, ?_, hround⟩
  · rw [hnumeral, NumberLayout.value_arrange, Scientific.value_ofSignificand]
  · have hplaces := Scientific.length_sub_point_ofSignificand m e
    have hscale := layout.le_scale_arrange x.negative (.ofSignificand m e)
    rw [← hnumeral] at hscale
    omega

/-- The numeral of a positive finite number has its sign, and its digits round to its magnitude. -/
theorem round_numeral (layout : NumberLayout) {x : Binary64} (hpos : 0 < x.magnitude) (h : x.isFinite = true) :
    (x.numeral layout).negative = x.negative ∧ -1101 ≤ (x.numeral layout).scale ∧
      Format.binary64.round ((x.numeral layout).significand * 10 ^ (x.numeral layout).scale.toNat)
        (10 ^ (-(x.numeral layout).scale).toNat) = x.magnitude := by
  obtain ⟨m, e, hnumeral, hvalue, hscale, hround⟩ := exists_numeral layout hpos h
  refine ⟨by rw [hnumeral, NumberLayout.negative_arrange], hscale, ?_⟩
  rw [← hround]
  exact Format.round_ten_congr (by decide) hvalue

theorem numeral_of_zero (layout : NumberLayout) {x : Binary64} (hzero : x.magnitude = 0) :
    x.numeral layout = ⟨x.negative, 0, if layout.wholeMark then [zeroDigit] else [], none⟩ := by
  unfold numeral
  rw [if_pos hzero]

/-- **The numeral of a finite number has its sign and reads as its magnitude.** -/
theorem ofDecimal_numeral (layout : NumberLayout) {x : Binary64} (h : x.isFinite = true) :
    (x.numeral layout).negative = x.negative ∧
      Format.binary64.ofDecimal (x.numeral layout).significand (x.numeral layout).scale = x.magnitude := by
  by_cases hzero : x.magnitude = 0
  · have hnumeral := numeral_of_zero layout hzero
    have hsignificand : (x.numeral layout).significand = 0 := by
      rw [hnumeral, Numeral.significand_eq]
      cases layout.wholeMark <;> rfl
    rw [hsignificand, hnumeral, hzero]
    exact ⟨rfl, if_pos rfl⟩
  · have hpos := Nat.pos_of_ne_zero hzero
    obtain ⟨hnegative, hscale, hround⟩ := round_numeral layout hpos h
    exact ⟨hnegative, Format.ofDecimal_of_round_ten (by omega) hround hpos (of_decide_eq_true h)⟩

/-- **A finite number is read back from its text**, in every layout. -/
theorem read?_text_of_isFinite (layout : NumberLayout) {x : Binary64} (h : x.isFinite = true) :
    read? (x.text layout) = some x := by
  have hnumber : x.isNaN = false :=
    decide_eq_false (Nat.not_lt.2 (Nat.le_of_lt (of_decide_eq_true (p := x.magnitude < _) h)))
  obtain ⟨hnegative, hmagnitude⟩ := ofDecimal_numeral layout h
  have htext : x.text layout = String.ofList ((x.numeral layout).chars layout.exponentPlus) := by
    unfold text
    rw [hnumber, h]
    rfl
  unfold read?
  rw [htext, FloatLiteral.read?_chars, Option.map_some]
  exact congrArg some (ext_magnitude hnegative hmagnitude)

end Binary
end TableForest
