import Mathlib.Algebra.Order.Field.Rat
import TableForest.Proofs.Cell.Text

/-!
# Integers as binary numbers

The number nearest to an integer is the integer itself iff the integer is a significand of the format times a
power of two.  Greater integers have gaps between them, and an integer in a gap becomes one of its neighbours.

## The architecture

* **`Binary.value`** is the number that a datum stands for, and **`Format.Holds`** says of an integer, without
  rounding, that it is such a number.
* **`Format.parts_of_isParts`** takes a magnitude apart that was put together from a significand and an exponent.
* **`Format.holds_of_ratio`** and **`Format.ratio_round_of_holds`** compare an integer with its magnitude, and
  **`Binary.value_ofInt_iff`** says it of the values.
* **`Binary.read?_intText_of_lt`**: the numeral of an integer is read as the number nearest to it.
-/

namespace TableForest

/-- The number that a finite datum stands for. -/
def Binary.value {f : Format} (x : Binary f) : ℚ :=
  let (num, den) := f.ratio x.magnitude
  (if x.negative then -1 else 1) * (num / den)

namespace Format

variable {f : Format} {num den magnitude m : Nat} {e : Int}

/-- The integer is a significand of the format times a power of two. -/
def Holds (f : Format) (n : Int) : Prop :=
  ∃ m k : Nat, n.natAbs = m * 2 ^ k ∧ m < 2 ^ f.precision

/-- Integers with no more bits than a significand are held, and so is the first with one more. -/
theorem holds_of_le (hp : 0 < f.precision) {n : Int} (h : n.natAbs ≤ 2 ^ f.precision) : f.Holds n := by
  rcases Nat.lt_or_eq_of_le h with hlt | heq
  · exact ⟨n.natAbs, 0, (Nat.mul_one _).symm, hlt⟩
  · exact ⟨1, f.precision, by rw [heq, Nat.one_mul], Nat.one_lt_two_pow (by omega)⟩

/-- An odd integer that is held has no more bits than a significand. -/
theorem Holds.lt_of_odd {n : Int} (h : f.Holds n) (hodd : n.natAbs % 2 = 1) : n.natAbs < 2 ^ f.precision := by
  obtain ⟨m, k, hn, hm⟩ := h
  cases k with
  | zero => simpa [hn] using hm
  | succ k =>
    rw [Nat.pow_succ, ← Nat.mul_assoc] at hn
    omega

theorem parts_of_isParts (hp : 0 < f.precision) (h : f.IsParts magnitude m e) :
    f.parts magnitude = (m, e) := by
  have hpos := f.binade_pos
  have hleast := h.least
  have hupper : m < 2 * f.binade := two_pow_precision hp ▸ h.upper
  unfold parts
  simp only
  by_cases hsmall : m < f.binade
  · -- a significand without its leading bit has the least exponent
    obtain rfl : e = f.minExponent := h.lower.resolve_right (by omega)
    have hvalue : m = magnitude := by simpa using h.value
    rw [← hvalue, Nat.div_eq_of_lt hsmall, Nat.mod_eq_of_lt hsmall, if_pos rfl]
  · obtain ⟨rest, rfl⟩ := Nat.exists_eq_add_of_le (Nat.not_lt.1 hsmall)
    have hrest : rest < f.binade := by omega
    have hvalue : magnitude = f.binade * ((e - f.minExponent).toNat + 1) + rest := by
      rw [← h.value, Nat.mul_add, Nat.mul_one, Nat.mul_comm, Nat.add_assoc]
    have hfield : magnitude / f.binade = (e - f.minExponent).toNat + 1 := by
      rw [hvalue, Nat.mul_add_div hpos, Nat.div_eq_of_lt hrest, Nat.add_zero]
    have hmod : magnitude % f.binade = rest := by
      rw [hvalue, Nat.mul_add_mod, Nat.mod_eq_of_lt hrest]
    rw [hfield, hmod, if_neg (by omega)]
    exact Prod.ext rfl (by simp only; omega)

/-- A positive integer that is held is a whole number of the units of its last bit. -/
theorem exists_units (hleast : f.minExponent ≤ 0) {n k : Nat} (hn : n = m * 2 ^ k) (hm : m < 2 ^ f.precision)
    (hunit : f.IsUnit n 1 e) : ∃ q, (inUnits n 1 e).1 = q * (inUnits n 1 e).2 := by
  rcases Int.le_total e 0 with hneg | hpos
  · -- the units are fractions of one
    refine ⟨(inUnits n 1 e).1, ?_⟩
    simp [inUnits, Int.toNat_of_nonpos hneg]
  · -- the unit is no greater than the power of two in the integer
    have hunits : inUnits n 1 e = (n, 2 ^ e.toNat) := by
      simp [inUnits, Int.toNat_of_nonpos (Int.neg_nonpos_of_nonneg hpos)]
    rw [hunits]
    have hle : e.toNat ≤ k := by
      rcases hunit.lower with hmin | hlower
      · omega
      · rw [hunits] at hlower
        have hlt : 2 ^ (f.precision - 1 + e.toNat) < 2 ^ (f.precision + k) :=
          calc 2 ^ (f.precision - 1 + e.toNat) = 2 ^ (f.precision - 1) * 2 ^ e.toNat := Nat.pow_add _ _ _
            _ ≤ m * 2 ^ k := hn ▸ hlower
            _ < 2 ^ f.precision * 2 ^ k := Nat.mul_lt_mul_of_pos_right hm (Nat.two_pow_pos k)
            _ = 2 ^ (f.precision + k) := (Nat.pow_add _ _ _).symm
        have := (Nat.pow_lt_pow_iff_right (by decide)).1 hlt
        omega
    refine ⟨m * 2 ^ (k - e.toNat), ?_⟩
    rw [hn, Nat.mul_assoc, ← Nat.pow_add, Nat.sub_add_cancel hle]

/-- An integer that a magnitude stands for is held. -/
theorem holds_of_ratio (hp : 0 < f.precision) {n : Nat}
    (h : (f.ratio magnitude).1 = n * (f.ratio magnitude).2) : f.Holds n := by
  have hparts := isParts_parts hp magnitude
  unfold ratio at h
  generalize f.parts magnitude = parts at hparts h
  obtain ⟨m, e⟩ := parts
  have hvalue : m * 2 ^ e.toNat = n * 2 ^ (-e).toNat := h
  rcases Int.le_total e 0 with hneg | hpos
  · rw [Int.toNat_of_nonpos hneg, Nat.pow_zero, Nat.mul_one] at hvalue
    refine holds_of_le hp (Nat.le_trans ?_ (Nat.le_of_lt hparts.upper))
    show n ≤ m
    rw [hvalue]
    exact Nat.le_mul_of_pos_right n (Nat.two_pow_pos _)
  · rw [Int.toNat_of_nonpos (Int.neg_nonpos_of_nonneg hpos), Nat.pow_zero, Nat.mul_one] at hvalue
    exact ⟨m, e.toNat, hvalue.symm, hparts.upper⟩

/-- An integer that is held is what it is rounded to. -/
theorem ratio_round_of_holds (hp : 0 < f.precision) (hleast : f.minExponent ≤ 0) {n : Nat}
    (hfinite : f.round n 1 < f.infinity) (h : f.Holds n) :
    (f.ratio (f.round n 1)).1 = n * (f.ratio (f.round n 1)).2 := by
  obtain ⟨m, k, hn, hm⟩ := h
  rw [Int.natAbs_natCast] at hn
  -- Zero has no unit.
  by_cases hzero : n = 0
  · have hparts : f.parts 0 = (0, f.minExponent) := by simp [parts]
    subst hzero
    simp [round, ratio, hparts]
  · have hunit := isUnit_unitExponent (f := f) hp hzero Nat.one_ne_zero
    generalize f.unitExponent n 1 = e at hunit
    obtain ⟨q, hq⟩ := exists_units hleast hn hm hunit
    have hunits := inUnits_snd_pos n Nat.one_pos e
    have hround : f.round n 1 = (e - f.minExponent).toNat * f.binade + q := by
      rw [round_eq_of_isUnit hp hzero Nat.one_ne_zero hunit, hq, divNearest_of_dvd q hunits] at hfinite ⊢
      omega
    have hparts : f.IsParts (f.round n 1) q e := by
      refine ⟨hunit.least, ?_, hunit.lower.imp id fun hlower => ?_, hround.symm⟩
      · exact Nat.lt_of_mul_lt_mul_right (hq ▸ hunit.upper)
      · exact Nat.le_of_mul_le_mul_right (hq ▸ hlower) hunits
    have hcross : n * 2 ^ (-e).toNat = q * (1 * 2 ^ e.toNat) := hq
    rw [Nat.one_mul] at hcross
    unfold ratio
    rw [parts_of_isParts hp hparts]
    exact hcross.symm

/-- What is below a power of two well inside the range rounds to a finite magnitude. -/
theorem round_lt_infinity (hp : 0 < f.precision) (hden : den ≠ 0) {k : Nat} (h : num < 2 ^ k * den)
    (hleast : f.minExponent + f.precision ≤ k)
    (hk : (k : Int) + 2 < f.minExponent + f.precision + (2 ^ f.exponentBits - 1 : Nat)) :
    f.round num den < f.infinity := by
  have hpos := f.binade_pos
  by_cases hnum : num = 0
  · rw [hnum, round, if_pos rfl]
    have hfields : 0 < 2 ^ f.exponentBits - 1 := by omega
    exact Nat.mul_pos hfields hpos
  · have hunit := isUnit_unitExponent (f := f) hp hnum hden
    rw [round_eq_of_isUnit hp hnum hden hunit]
    generalize f.unitExponent num den = e at hunit
    have hmin := hunit.least
    have hunits := inUnits_snd_pos num (Nat.pos_of_ne_zero hden) e
    -- the quotient needs all bits, so its unit is that many bits below its bound
    have hfield : e ≤ k - f.precision := by
      rcases hunit.lower with hmin | hlower
      · omega
      · have hlt : 2 ^ (f.precision - 1 + e.toNat) * den < 2 ^ (k + (-e).toNat) * den :=
          calc 2 ^ (f.precision - 1 + e.toNat) * den = 2 ^ (f.precision - 1) * (den * 2 ^ e.toNat) := by
                rw [Nat.pow_add]
                ring
            _ ≤ num * 2 ^ (-e).toNat := hlower
            _ < 2 ^ k * den * 2 ^ (-e).toNat := Nat.mul_lt_mul_of_pos_right h (Nat.two_pow_pos _)
            _ = 2 ^ (k + (-e).toNat) * den := by
                rw [Nat.pow_add]
                ring
        have := (Nat.pow_lt_pow_iff_right (by decide)).1 (Nat.lt_of_mul_lt_mul_right hlt)
        omega
    have hsignificand : divNearest (inUnits num den e).1 (inUnits num den e).2 ≤ 2 * f.binade := by
      have hquotient : (inUnits num den e).1 / (inUnits num den e).2 < 2 * f.binade := by
        rw [Nat.div_lt_iff_lt_mul hunits, ← two_pow_precision hp]
        exact hunit.upper
      unfold divNearest
      simp only
      split
      · omega
      · split <;> omega
    have hrange : (e - f.minExponent).toNat + 3 ≤ 2 ^ f.exponentBits - 1 := by omega
    calc min ((e - f.minExponent).toNat * f.binade
          + divNearest (inUnits num den e).1 (inUnits num den e).2) f.infinity
        ≤ (e - f.minExponent).toNat * f.binade + 2 * f.binade :=
          Nat.le_trans (Nat.min_le_left _ _) (Nat.add_le_add_left hsignificand _)
      _ < ((e - f.minExponent).toNat + 3) * f.binade := by
          rw [Nat.add_mul]
          omega
      _ ≤ f.infinity := Nat.mul_le_mul_right _ hrange

/-- An integer that is not too great to be looked at is rounded as it is. -/
theorem ofDecimal_zero {n k : Nat} (hlt : n < 2 ^ k) (hk : k ≤ 1024) : f.ofDecimal n 0 = f.round n 1 := by
  unfold ofDecimal
  by_cases hzero : n = 0
  · rw [hzero, if_pos rfl, round, if_pos rfl]
  · have hlog : n.log2 < k := (Nat.log2_lt hzero).2 hlt
    rw [if_neg hzero]
    simp only
    rw [if_neg (by omega), if_neg (by omega)]
    show f.round (n * 1) 1 = f.round n 1
    rw [Nat.mul_one]

end Format

namespace Binary

theorem natAbs_toInt_lt (n : Int64) : n.toInt.natAbs < 2 ^ 64 := by
  have hlow := Int64.le_toInt n
  have hhigh := Int64.toInt_lt n
  omega

theorem isFinite_ofInt_of_lt {n : Int} (h : n.natAbs < 2 ^ 64) : (ofInt n : Binary64).isFinite = true :=
  decide_eq_true (Format.round_lt_infinity (f := .binary64) (k := 64) (by decide) Nat.one_ne_zero (by omega)
    (by decide) (by decide))

/-- The number nearest to an integer of sixty-four bits is finite. -/
theorem isFinite_ofInt (n : Int64) : (ofInt n.toInt : Binary64).isFinite = true :=
  isFinite_ofInt_of_lt (natAbs_toInt_lt n)

/-- **The number nearest to an integer is the integer iff the format holds it.** -/
theorem value_ofInt_iff {n : Int} (hfinite : (ofInt n : Binary64).isFinite = true) :
    (ofInt n : Binary64).value = n ↔ Format.binary64.Holds n := by
  have hround : Format.binary64.round n.natAbs 1 < Format.binary64.infinity := of_decide_eq_true hfinite
  -- the sign does not count, so the claim is one about the absolute value
  have hiff : (Format.binary64.ratio (Format.binary64.round n.natAbs 1)).1 =
      n.natAbs * (Format.binary64.ratio (Format.binary64.round n.natAbs 1)).2 ↔
        Format.binary64.Holds n.natAbs :=
    ⟨Format.holds_of_ratio (by decide), Format.ratio_round_of_holds (by decide) (by decide) hround⟩
  have hholds : Format.binary64.Holds n.natAbs ↔ Format.binary64.Holds n := by
    unfold Format.Holds
    rw [Int.natAbs_natCast]
  rw [← hholds, ← hiff]
  have hden : (Format.binary64.ratio (Format.binary64.round n.natAbs 1)).2 ≠ 0 :=
    (Nat.two_pow_pos _).ne'
  show (if decide (n < 0) = true then (-1 : ℚ) else 1) *
    ((Format.binary64.ratio (Format.binary64.round n.natAbs 1)).1 /
      (Format.binary64.ratio (Format.binary64.round n.natAbs 1)).2) = n ↔ _
  generalize Format.binary64.ratio (Format.binary64.round n.natAbs 1) = ratio at hden
  obtain ⟨num, den⟩ := ratio
  have hdenq : (den : ℚ) ≠ 0 := Nat.cast_ne_zero.2 hden
  have habs : ((num : ℚ) / den = n.natAbs) ↔ num = n.natAbs * den := by
    rw [div_eq_iff hdenq]
    exact_mod_cast Iff.rfl
  rw [← habs]
  -- a negative number is compared with the sign taken off both sides
  by_cases hneg : n < 0
  · have hn : (n : ℚ) = ((-(n.natAbs : Int) : Int) : ℚ) := congrArg Int.cast (by omega)
    rw [Int.cast_neg, Int.cast_natCast] at hn
    rw [if_pos (decide_eq_true hneg), hn, neg_one_mul, neg_inj]
  · have hn : (n : ℚ) = ((n.natAbs : Int) : ℚ) := congrArg Int.cast (by omega)
    rw [Int.cast_natCast] at hn
    rw [if_neg (by simpa using hneg), hn, one_mul]

theorem intText_eq_chars (n : Int) : Decimal.intText n = String.ofList ((Numeral.ofInt n).chars false) := by
  cases n with
  | ofNat n =>
    have hsign : decide (Int.ofNat n < 0) = false := decide_eq_false (by simp)
    simp only [Numeral.chars, Numeral.ofInt, Numeral.exponentChars, hsign]
    simp [Decimal.intText, Decimal.natText]
  | negSucc n =>
    have hsign : decide (Int.negSucc n < 0) = true := decide_eq_true (Int.negSucc_lt_zero n)
    simp only [Numeral.chars, Numeral.ofInt, Numeral.exponentChars, hsign]
    simp [Decimal.intText]

/-- The numeral of an integer is read as the number nearest to it. -/
theorem read?_intText_of_lt {n : Int} (h : n.natAbs < 2 ^ 64) :
    Binary.read? (Decimal.intText n) = some (ofInt n : Binary64) := by
  have hliteral := FloatLiteral.read?_chars false (Numeral.ofInt n)
  have hsignificand : (Numeral.ofInt n).significand = n.natAbs := by
    simp [Numeral.significand_eq, Numeral.ofInt, Decimal.ofDigits]
  have hplaces : (Numeral.ofInt n).scale = 0 := rfl
  have hmagnitude : Format.binary64.ofDecimal n.natAbs 0 = Format.binary64.round n.natAbs 1 :=
    Format.ofDecimal_zero (k := 64) h (by decide)
  unfold read?
  rw [intText_eq_chars, hliteral, hsignificand, hplaces, Option.map_some, FloatLiteral.toBinary]
  simp only [ofDecimal, ofInt, ofRatio, hmagnitude]
  rfl

theorem read?_intText (n : Int64) : Binary.read? (Decimal.intText n.toInt) = some (ofInt n.toInt : Binary64) :=
  read?_intText_of_lt (natAbs_toInt_lt n)

end Binary
end TableForest
