import TableForest.Json.Number
import TableForest.Proofs.Number.Digits
import TableForest.Proofs.Number.Error

/-!
# Scaling by powers of ten

The reader of JSON reckons a number from a significand and a power of ten, and it rounds both of them and what it
makes of them.  So it may miss the number nearest to a decimal, but only by a few steps; and where nothing is lost on
the way, it finds it.

## The architecture

* **`Format.within_round_natCast`** and **`within_ofDecimal_one`** are the errors of a significand and of a power of
  ten; **`steps_of_nonneg`**, **`steps_of_neg`** and **`steps_of_lt`** add up those of a product, of a quotient and of
  two quotients.
* **`scale?_of_lt_top`** puts the three together.  Near infinity a step too many would be an overflow, so the greatest
  magnitudes are looked at one by one: **`exists_top`** finds their decimals and **`scale?_of_round`** covers them.
* **`scale?_of_holds`** is the case without errors.
-/

namespace TableForest

open Decimal

namespace Format

variable {f : Format} {a b m magnitude : Nat} {s : Int}

/-! ## Products and quotients -/

theorem natCast_mul_ratio (f : Format) (a b : Nat) :
    (((f.ratio a).1 * (f.ratio b).1 : Nat) : ℚ) / ((f.ratio a).2 * (f.ratio b).2 : Nat) = f.value a * f.value b := by
  unfold value
  rw [Nat.cast_mul, Nat.cast_mul, div_mul_div_comm]

theorem natCast_div_ratio (f : Format) (a b : Nat) :
    (((f.ratio a).1 * (f.ratio b).2 : Nat) : ℚ) / ((f.ratio a).2 * (f.ratio b).1 : Nat) = f.value a / f.value b := by
  unfold value
  rw [Nat.cast_mul, Nat.cast_mul, div_div_div_eq]

theorem mul_ratio_ne_zero (f : Format) (a b : Nat) : (f.ratio a).2 * (f.ratio b).2 ≠ 0 :=
  Nat.mul_ne_zero (ratio_snd_ne_zero f a) (ratio_snd_ne_zero f b)

theorem div_ratio_ne_zero (f : Format) (a : Nat) (hb : 0 < f.value b) : (f.ratio a).2 * (f.ratio b).1 ≠ 0 :=
  Nat.mul_ne_zero (ratio_snd_ne_zero f a) (ne_zero_of_div_pos hb)

/-! ## Whole numbers and powers of ten -/

theorem ten_pow_le_of_le {j k : Nat} (h : j ≤ k) : 10 ^ j ≤ 10 ^ k :=
  Nat.pow_le_pow_right (by decide) h

theorem ten_pow_le_value_max : 10 ^ 308 ≤ binary64.value (binary64.infinity - 1) := by
  have hratio : binary64.ratio (binary64.infinity - 1) = ((2 ^ 53 - 1) * 2 ^ 971, 1) := by decide +kernel
  have hle : 10 ^ 308 ≤ (2 ^ 53 - 1) * 2 ^ 971 := by decide +kernel
  have hcast := Nat.cast_le (α := ℚ).2 hle
  rw [Nat.cast_pow, Nat.cast_ofNat] at hcast
  unfold value
  rw [hratio, Nat.cast_one, div_one]
  exact hcast

/-- The least number with a leading bit. -/
theorem least_normal_eq : binary64.binade * (2 : ℚ) ^ binary64.minExponent = 2 ^ (-1022 : Int) := by
  have hexponent : binary64.minExponent = -52 + -1022 := by decide
  have hbinade : (binary64.binade : ℚ) = 2 ^ (52 : Int) := by
    norm_num [binade, binary64]
  rw [hexponent, two_zpow_add, hbinade, ← mul_assoc, ← two_zpow_add]
  norm_num

theorem least_normal_le_one : binary64.binade * (2 : ℚ) ^ binary64.minExponent ≤ 1 := by
  rw [least_normal_eq, ← zpow_zero (2 : ℚ)]
  exact two_zpow_le (by decide)

/-- A fraction that is not too great rounds to a finite magnitude. -/
theorem round_lt_infinity_of_le {num den : Nat} (hden : den ≠ 0) (h : (num : ℚ) / den ≤ 10 ^ 308) :
    binary64.round num den < binary64.infinity := by
  have hle := round_le (f := binary64) (by decide) hden (le_trans h ten_pow_le_value_max)
  have hpos : 0 < binary64.infinity := by decide
  omega

theorem round_natCast_lt_infinity (h : (m : ℚ) ≤ 10 ^ 308) : binary64.round m 1 < binary64.infinity :=
  round_lt_infinity_of_le one_ne_zero (by rwa [Nat.cast_one, div_one])

/-- A whole number is rounded with one error. -/
theorem within_round_natCast (hm : 0 < m) (h : (m : ℚ) ≤ 10 ^ 308) :
    binary64.Within 1 (binary64.value (binary64.round m 1)) m := by
  have hone : (1 : ℚ) ≤ m := by exact_mod_cast hm
  have hwithin := within_value_round (f := binary64) (by decide) one_ne_zero (round_natCast_lt_infinity h)
    (by
      rw [Nat.cast_one, div_one]
      exact le_trans least_normal_le_one hone)
  rwa [Nat.cast_one, div_one] at hwithin

/-- A whole number that the format holds is rounded without one. -/
theorem value_round_of_holds (hholds : binary64.Holds m) (h : (m : ℚ) ≤ 10 ^ 308) :
    binary64.value (binary64.round m 1) = m := by
  have hratio := ratio_round_of_holds (f := binary64) (by decide) (by decide) (round_natCast_lt_infinity h) hholds
  have hden : ((binary64.ratio (binary64.round m 1)).2 : ℚ) ≠ 0 := Nat.cast_ne_zero.2 (ratio_snd_ne_zero _ _)
  unfold value
  rw [hratio, Nat.cast_mul, mul_div_cancel_right₀ _ hden]

/-- The powers of ten of the reader are formed. -/
theorem ofDecimal_one {k : Nat} (hk : k ≤ 308) : binary64.ofDecimal 1 k = binary64.round (10 ^ k) 1 := by
  have hlog : (1 : Nat).log2 = 0 := by decide
  unfold ofDecimal
  rw [if_neg one_ne_zero, hlog]
  simp only
  rw [if_neg (by omega), if_neg (by omega)]
  show binary64.round (1 * 10 ^ (k : Int).toNat) (10 ^ (-(k : Int)).toNat) = _
  rw [Nat.one_mul, Int.toNat_natCast, show (-(k : Int)).toNat = 0 by omega, Nat.pow_zero]

theorem natCast_ten_pow_le {k : Nat} (hk : k ≤ 308) : ((10 ^ k : Nat) : ℚ) ≤ 10 ^ 308 := by
  rw [Nat.cast_pow, Nat.cast_ofNat]
  exact pow_le_pow_right₀ (by norm_num) hk

theorem within_ofDecimal_one {k : Nat} (hk : k ≤ 308) :
    binary64.Within 1 (binary64.value (binary64.ofDecimal 1 k)) (10 ^ k) := by
  have hwithin := within_round_natCast (Nat.pow_pos (n := k) (by decide)) (natCast_ten_pow_le hk)
  rw [Nat.cast_pow, Nat.cast_ofNat] at hwithin
  rwa [ofDecimal_one hk]

/-- Ten to the twenty-second is a significand times a power of two. -/
theorem holds_ten_pow {k : Nat} (hk : k ≤ 22) : binary64.Holds ((10 ^ k : Nat) : Int) := by
  refine ⟨5 ^ k, k, ?_, ?_⟩
  · rw [Int.natAbs_natCast, ← Nat.mul_pow]
  · exact Nat.lt_of_le_of_lt (Nat.pow_le_pow_right (by decide) hk) (by decide)

theorem value_ofDecimal_one {k : Nat} (hk : k ≤ 22) : binary64.value (binary64.ofDecimal 1 k) = 10 ^ k := by
  have hvalue := value_round_of_holds (holds_ten_pow hk) (natCast_ten_pow_le (by omega))
  rw [ofDecimal_one (by omega), hvalue, Nat.cast_pow, Nat.cast_ofNat]

/-! ## Scaling -/

/-- The steps by which the reader may miss a magnitude: the powers of ten end at 308, and a smaller number takes two
divisions. -/
def stepBound (scale : Int) : Nat :=
  if scale < -maxTenPower then 7 else 3

theorem stepBound_le (scale : Int) : stepBound scale ≤ 7 := by
  unfold stepBound
  split <;> omega

theorem three_le_stepBound (scale : Int) : 3 ≤ stepBound scale := by
  unfold stepBound
  split <;> omega

theorem scale?_of_nonneg (f : Format) (magnitude : Nat) (hlow : 0 ≤ s) (hhigh : s ≤ maxTenPower) :
    f.scale? magnitude s = if f.mul magnitude (f.ofDecimal 1 s) = f.infinity then none
      else some (f.mul magnitude (f.ofDecimal 1 s)) := by
  rw [scale?, if_neg (by omega), if_neg (by omega), if_pos hhigh]

theorem scale?_of_neg (f : Format) (magnitude : Nat) (hlow : -maxTenPower ≤ s) (hhigh : s < 0) :
    f.scale? magnitude s = some (f.div magnitude (f.ofDecimal 1 (-s))) := by
  rw [scale?, if_neg (by omega), if_pos hhigh]

theorem scale?_of_lt (f : Format) (hmagnitude : magnitude ≠ 0) (h : s < -maxTenPower) :
    f.scale? magnitude s = f.scale? (f.div magnitude (f.ofDecimal 1 maxTenPower)) (s + maxTenPower) := by
  rw [scale?, if_pos h, if_neg hmagnitude]

/-- Products and quotients are rounded by their values. -/
theorem mul_eq_round (hp : 0 < f.precision) {num den : Nat} (hden : den ≠ 0) (h : f.value a * f.value b = num / den) :
    f.mul a b = f.round num den := by
  rw [← natCast_mul_ratio] at h
  show f.round ((f.ratio a).1 * (f.ratio b).1) ((f.ratio a).2 * (f.ratio b).2) = f.round num den
  exact round_congr_div hp (mul_ratio_ne_zero f a b) hden h

theorem div_eq_round (hp : 0 < f.precision) {num den : Nat} (hden : den ≠ 0) (hb : 0 < f.value b)
    (h : f.value a / f.value b = num / den) : f.div a b = f.round num den := by
  rw [← natCast_div_ratio] at h
  show f.round ((f.ratio a).1 * (f.ratio b).2) ((f.ratio a).2 * (f.ratio b).1) = f.round num den
  exact round_congr_div hp (div_ratio_ne_zero f a hb) hden h

/-- A product is rounded like every number near to it. -/
theorem mul_steps {num den k : Nat} (hden : den ≠ 0) (h : binary64.round num den = magnitude)
    (hfinite : magnitude < binary64.infinity)
    (hwithin : binary64.Within k (binary64.value a * binary64.value b) (num / den)) :
    Apart (k + 1) (binary64.mul a b) magnitude := by
  rw [← natCast_mul_ratio] at hwithin
  exact round_steps (by decide) hden (mul_ratio_ne_zero _ a b) h hfinite hwithin

theorem div_steps {num den k : Nat} (hden : den ≠ 0) (h : binary64.round num den = magnitude)
    (hfinite : magnitude < binary64.infinity) (hb : 0 < binary64.value b)
    (hwithin : binary64.Within k (binary64.value a / binary64.value b) (num / den)) :
    Apart (k + 1) (binary64.div a b) magnitude := by
  rw [← natCast_div_ratio] at hwithin
  exact round_steps (by decide) hden (div_ratio_ne_zero _ a hb) h hfinite hwithin

theorem natCast_le_of_lt (h : m < 2 ^ 64) : (m : ℚ) ≤ 10 ^ 308 := by
  have hpow : 2 ^ 64 ≤ 10 ^ 308 := by decide +kernel
  have hcast : (m : ℚ) ≤ ((10 ^ 308 : Nat) : ℚ) := Nat.cast_le.2 (Nat.le_trans (Nat.le_of_lt h) hpow)
  rwa [Nat.cast_pow, Nat.cast_ofNat] at hcast

/-- A quotient just below the numbers with a leading bit is rounded with three errors. -/
theorem within_value_div_small (hb : 0 < binary64.value b) (hle : binary64.value a / binary64.value b ≤ 10 ^ 308)
    (h : (2 : ℚ) ^ (-1022 : Int) ≤ 5 / 2 * (binary64.value a / binary64.value b)) :
    binary64.Within 3 (binary64.value (binary64.div a b)) (binary64.value a / binary64.value b) := by
  have hden := div_ratio_ne_zero binary64 a hb
  rw [← least_normal_eq] at h
  rw [← natCast_div_ratio] at hle h ⊢
  exact within_value_round_small (by decide) hden (round_lt_infinity_of_le hden hle) h

theorem growth_two_le : (1 + binary64.roundoff) ^ 2 ≤ 1001 / 1000 := by
  rw [roundoff_binary64]
  norm_num

/-- The greatest power of ten is not far above the inverse of the least number with a leading bit. -/
theorem two_zpow_le_ten_pow : (2 : ℚ) ^ (-1022 : Int) ≤ 5000 / 2002 * (1 / 10 ^ 308) := by
  have hnat : 2002 * 10 ^ 308 ≤ 5000 * 2 ^ 1022 := by decide +kernel
  have hcast := Nat.cast_le (α := ℚ).2 hnat
  rw [Nat.cast_mul, Nat.cast_mul, Nat.cast_pow, Nat.cast_pow] at hcast
  have hten : (0 : ℚ) < 10 ^ 308 := pow_pos (by norm_num) 308
  have htwo : (0 : ℚ) < 2 ^ 1022 := pow_pos (by norm_num) 1022
  rw [zpow_neg, show (1022 : Int) = ((1022 : Nat) : Int) from rfl, zpow_natCast, div_mul_div_comm, mul_one,
    inv_eq_one_div, div_le_div_iff₀ htwo (mul_pos (by norm_num) hten), one_mul]
  exact hcast

section Scale

variable (hm : 0 < m) (hlt : m < 2 ^ 64)
  (h : binary64.round (m * 10 ^ s.toNat) (10 ^ (-s).toNat) = magnitude) (hfinite : magnitude < binary64.infinity)

include hm hlt h hfinite

theorem steps_of_nonneg (hlow : 0 ≤ s) (hhigh : s ≤ 308) :
    Apart 3 (binary64.mul (binary64.round m 1) (binary64.ofDecimal 1 s)) magnitude := by
  obtain ⟨k, rfl⟩ := Int.eq_ofNat_of_zero_le hlow
  have hk : k ≤ 308 := by omega
  have hten : (0 : ℚ) < 10 ^ k := pow_pos (by norm_num) k
  have hmq : (0 : ℚ) < m := Nat.cast_pos.2 hm
  have hsignificand := within_round_natCast hm (natCast_le_of_lt hlt)
  have hpower := within_ofDecimal_one hk
  refine mul_steps (Nat.pow_pos (by decide)).ne' h hfinite ?_
  rw [natCast_div_ten_pow, zpow_natCast]
  exact hsignificand.mul (hsignificand.pos hmq) hmq (hpower.pos hten) hten hpower

theorem steps_of_neg (hlow : -308 ≤ s) (hhigh : s < 0) :
    Apart 3 (binary64.div (binary64.round m 1) (binary64.ofDecimal 1 (-s))) magnitude := by
  obtain ⟨k, hk⟩ := Int.eq_ofNat_of_zero_le (show 0 ≤ -s by omega)
  obtain rfl : s = -k := by omega
  have hten : (0 : ℚ) < 10 ^ k := pow_pos (by norm_num) k
  have hmq : (0 : ℚ) < m := Nat.cast_pos.2 hm
  have hsignificand := within_round_natCast hm (natCast_le_of_lt hlt)
  have hpower := within_ofDecimal_one (k := k) (by omega)
  rw [Int.neg_neg]
  refine div_steps (Nat.pow_pos (by decide)).ne' h hfinite (hpower.pos hten) ?_
  rw [natCast_div_ten_pow, zpow_neg, zpow_natCast, ← div_eq_mul_inv]
  exact hsignificand.div (hsignificand.pos hmq) hmq (hpower.pos hten) hten hpower

omit h hfinite in
/-- The first of two divisions may lead below the numbers with a leading bit, and it does so by a small factor only. -/
theorem within_first_division :
    binary64.Within 5 (binary64.value (binary64.div (binary64.round m 1) (binary64.ofDecimal 1 (308 : Nat))))
      (m / 10 ^ 308) := by
  have hten : (0 : ℚ) < 10 ^ 308 := pow_pos (by norm_num) 308
  have hmq : (0 : ℚ) < m := Nat.cast_pos.2 hm
  have hsignificand := within_round_natCast hm (natCast_le_of_lt hlt)
  have hpower := within_ofDecimal_one (Nat.le_refl 308)
  -- two roundings so far, that of the significand and that of the power
  have hquotient := hsignificand.div (hsignificand.pos hmq) hmq (hpower.pos hten) hten hpower
  refine (within_value_div_small (hpower.pos hten) ?_ ?_).trans hquotient
  · have hunit : (m : ℚ) / 10 ^ 308 ≤ 1 := (div_le_one hten).2 (natCast_le_of_lt hlt)
    calc _ ≤ (m : ℚ) / 10 ^ 308 * (1 + binary64.roundoff) ^ (1 + 1) := hquotient.le
      _ ≤ 1 * (1001 / 1000) := mul_le_mul hunit growth_two_le (le_of_lt (binary64.growth_pos 2)) one_pos.le
      _ ≤ 10 ^ 1 := by norm_num
      _ ≤ 10 ^ 308 := pow_le_pow_right₀ (by norm_num) (by decide)
  -- the quotient is not among the small numbers, so rounding it is one step more
  · have hone : (1 : ℚ) ≤ m := by exact_mod_cast hm
    have hpos := hquotient.pos (div_pos hmq hten)
    have hge := hquotient.ge
    generalize binary64.value (binary64.round m 1) / _ = t at hge hpos ⊢
    have hlow : 1 / 10 ^ 308 ≤ t * (1001 / 1000) :=
      calc 1 / 10 ^ 308 ≤ (m : ℚ) / 10 ^ 308 := div_le_div_of_nonneg_right hone (le_of_lt hten)
        _ ≤ t * (1 + binary64.roundoff) ^ (1 + 1) := hge
        _ ≤ t * (1001 / 1000) := mul_le_mul_of_nonneg_left growth_two_le (le_of_lt hpos)
    have hleast := two_zpow_le_ten_pow
    generalize (1 : ℚ) / 10 ^ 308 = unit at hlow hleast
    linarith

theorem steps_of_lt (hlow : -616 ≤ s) (hhigh : s < -308) :
    Apart 7 (binary64.div (binary64.div (binary64.round m 1) (binary64.ofDecimal 1 (308 : Nat)))
      (binary64.ofDecimal 1 (-(s + (308 : Nat))))) magnitude := by
  obtain ⟨k, hk⟩ := Int.eq_ofNat_of_zero_le (show 0 ≤ -(s + (308 : Nat)) by omega)
  have hk' : k ≤ 308 := by omega
  have hten : (0 : ℚ) < 10 ^ k := pow_pos (by norm_num) k
  have hmq : (0 : ℚ) < m := Nat.cast_pos.2 hm
  have hfirst := within_first_division hm hlt
  -- the second power is divided off what the first has left
  have hpower := within_ofDecimal_one hk'
  have hexact : (m : ℚ) * 10 ^ s = m / 10 ^ 308 / 10 ^ k := by
    have hs : s = -((308 : Nat) : Int) + -(k : Int) := by omega
    rw [hs, ten_zpow_add, zpow_neg, zpow_neg, zpow_natCast, zpow_natCast, ← mul_assoc, ← div_eq_mul_inv,
      ← div_eq_mul_inv]
  have hpos : (0 : ℚ) < m / 10 ^ 308 := div_pos hmq (pow_pos (by norm_num) 308)
  rw [hk]
  refine div_steps (Nat.pow_pos (by decide)).ne' h hfinite (hpower.pos hten) ?_
  rw [natCast_div_ten_pow, hexact]
  exact hfirst.div (hfirst.pos hpos) hpos (hpower.pos hten) hten hpower

omit hm hfinite in
/-- What is not rounded to zero is scaled by no smaller power of ten than two divisions take. -/
theorem le_scale_of_pos (hpos : 0 < magnitude) : -616 ≤ s := by
  refine Int.not_lt.1 fun hlow => ?_
  have hfar : 617 ≤ (-s).toNat := by omega
  have hone : 10 ^ s.toNat = 1 := by rw [show s.toNat = 0 by omega, Nat.pow_zero]
  have hround : 0 < binary64.round (m * 10 ^ s.toNat) (10 ^ (-s).toNat) := by omega
  have hle : 10 ^ (-s).toNat ≤ 2 ^ 1075 * (m * 10 ^ s.toNat) :=
    le_of_round_pos (f := binary64) (by decide) (Nat.pow_pos (by decide)).ne' hround (by decide)
  have hbig : 2 ^ 1075 * 2 ^ 64 < 10 ^ 617 := by decide +kernel
  rw [hone, Nat.mul_one] at hle
  refine Nat.lt_irrefl (10 ^ 617) ?_
  calc 10 ^ 617 ≤ 10 ^ (-s).toNat := ten_pow_le_of_le hfar
    _ ≤ 2 ^ 1075 * m := hle
    _ ≤ 2 ^ 1075 * 2 ^ 64 := Nat.mul_le_mul_left _ (Nat.le_of_lt hlt)
    _ < 10 ^ 617 := hbig

omit hlt in
/-- What is not rounded to infinity is scaled by no greater power of ten than the reader forms. -/
theorem scale_le_of_lt_infinity : s ≤ 308 := by
  refine Int.not_lt.1 fun hhigh => ?_
  have hfar : 309 ≤ s.toNat := by omega
  have hone : 10 ^ (-s).toNat = 1 := by rw [show (-s).toNat = 0 by omega, Nat.pow_zero]
  have hround : binary64.round (m * 10 ^ s.toNat) (10 ^ (-s).toNat) < binary64.infinity := by omega
  have hbelow : m * 10 ^ s.toNat < 2 ^ 1026 * 10 ^ (-s).toNat :=
    lt_of_round_lt_infinity (f := binary64) (by decide) (Nat.pow_pos (by decide)).ne' hround (by decide)
  have hbig : 2 ^ 1026 < 10 ^ 309 := by decide +kernel
  rw [hone, Nat.mul_one] at hbelow
  refine Nat.lt_irrefl (10 ^ 309) ?_
  calc 10 ^ 309 ≤ 10 ^ s.toNat := ten_pow_le_of_le hfar
    _ ≤ m * 10 ^ s.toNat := Nat.le_mul_of_pos_left _ hm
    _ < 2 ^ 1026 := hbelow
    _ < 10 ^ 309 := hbig

end Scale

/-- Below the greatest magnitudes a few steps do not lead to infinity. -/
theorem scale?_of_lt_top (hm : 0 < m) (hlt : m < 2 ^ 64)
    (h : binary64.round (m * 10 ^ s.toNat) (10 ^ (-s).toNat) = magnitude) (hpos : 0 < magnitude)
    (hrange : magnitude + 7 < binary64.infinity) :
    ∃ found, binary64.scale? (binary64.round m 1) s = some found ∧ Apart (stepBound s) found magnitude := by
  have hfinite : magnitude < binary64.infinity := by omega
  have hlow := le_scale_of_pos hlt h hpos
  have hhigh := scale_le_of_lt_infinity hm h hfinite
  have hpowers : (maxTenPower : Int) = 308 := rfl
  unfold stepBound
  rcases Int.lt_or_le s 0 with hneg | hnonneg
  · rcases Int.lt_or_le s (-308) with hsmall | hlarge
    · -- two divisions
      have hsteps := steps_of_lt hm hlt h hfinite hlow hsmall
      have hsignificand : binary64.round m 1 ≠ 0 := by
        intro hzero
        have hpos := (within_round_natCast hm (natCast_le_of_lt hlt)).pos (Nat.cast_pos.2 hm)
        rw [hzero, value_zero] at hpos
        exact lt_irrefl 0 hpos
      rw [if_pos (by omega), scale?_of_lt _ hsignificand (by omega), scale?_of_neg _ _ (by omega) (by omega)]
      exact ⟨_, rfl, hsteps⟩
    · have hsteps := steps_of_neg hm hlt h hfinite hlarge hneg
      rw [if_neg (by omega), scale?_of_neg _ _ (by omega) hneg]
      exact ⟨_, rfl, hsteps⟩
  · have hsteps := steps_of_nonneg hm hlt h hfinite hnonneg hhigh
    have hbelow := hsteps.le
    rw [if_neg (by omega), scale?_of_nonneg _ _ hnonneg (by omega), if_neg (by omega)]
    exact ⟨_, rfl, hsteps⟩

/-- The significands of seventeen digits that stand for the greatest numbers, in units of the 292nd power of ten. -/
def topSignificand (i : Nat) : Nat :=
  17976931348623144 + i

/-- The magnitude that such a decimal stands for. -/
def topMagnitude (i : Nat) : Nat :=
  binary64.round (topSignificand i * 10 ^ 292) 1

/-- None of them is read as infinity, apart from the greatest magnitude. -/
theorem scale?_top : ∀ i < 16, ∀ j : Nat, j < 2 → topSignificand i % 10 ^ j = 0 ∧ topMagnitude i + 1 < binary64.infinity →
    ∃ found ∈ binary64.scale? (binary64.round (topSignificand i / 10 ^ j) 1) (292 + (j : Int)),
      found < binary64.infinity ∧ Apart 3 found (topMagnitude i) := by
  decide +kernel

/-- The value of the magnitude below the seven greatest, in units of the 292nd power of ten. -/
theorem le_value_top : 17976931348623143 * 10 ^ 292 < binary64.value (binary64.infinity - 8) := by
  have hratio : binary64.ratio (binary64.infinity - 8) = ((2 ^ 53 - 8) * 2 ^ 971, 1) := by decide +kernel
  have hlt : 17976931348623143 * 10 ^ 292 < (2 ^ 53 - 8) * 2 ^ 971 := by decide +kernel
  have hcast := Nat.cast_lt (α := ℚ).2 hlt
  rw [Nat.cast_mul, Nat.cast_pow, Nat.cast_ofNat, Nat.cast_ofNat] at hcast
  unfold value
  rw [hratio, Nat.cast_one, div_one]
  exact hcast

/-- The value that infinity would have. -/
theorem value_infinity_le : binary64.value binary64.infinity < 17976931348623160 * 10 ^ 292 := by
  have hratio : binary64.ratio binary64.infinity = (2 ^ 52 * 2 ^ 972, 1) := by decide +kernel
  have hlt : 2 ^ 52 * 2 ^ 972 < 17976931348623160 * 10 ^ 292 := by decide +kernel
  have hcast := Nat.cast_lt (α := ℚ).2 hlt
  rw [Nat.cast_mul 17976931348623160, Nat.cast_pow 10, Nat.cast_ofNat, Nat.cast_ofNat] at hcast
  unfold value
  rw [hratio, Nat.cast_one, div_one]
  exact hcast

/-- Seventeen digits and a smaller power of ten do not reach them. -/
theorem le_scale_of_top (hlt : m < 10 ^ 17) (hlow : 17976931348623143 * 10 ^ 292 < (m : ℚ) * 10 ^ s) : 292 ≤ s := by
  refine Int.not_lt.1 fun hsmall => ?_
  have hpow : (10 : ℚ) ^ s ≤ 10 ^ ((291 : Nat) : Int) := zpow_le_zpow_right₀ (by norm_num) (by omega)
  rw [zpow_natCast] at hpow
  have hmq : (m : ℚ) ≤ 10 ^ 17 := by exact_mod_cast Nat.le_of_lt hlt
  have hproduct : (m : ℚ) * 10 ^ s ≤ 10 ^ 17 * 10 ^ 291 :=
    mul_le_mul hmq hpow (le_of_lt (ten_zpow_pos s)) (by norm_num)
  have hsplit : (10 : ℚ) ^ 17 * 10 ^ 291 = 10 ^ 16 * 10 ^ 292 := by
    rw [← pow_add, ← pow_add]
  have hunit : (0 : ℚ) < 10 ^ 292 := pow_pos (by norm_num) 292
  rw [hsplit] at hproduct
  generalize (10 : ℚ) ^ 292 = unit at hlow hproduct hunit
  linarith

/-- What rounds to one of the greatest magnitudes is one of these decimals. -/
theorem exists_top (hlt : m < 10 ^ 17) (h : binary64.round (m * 10 ^ s.toNat) (10 ^ (-s).toNat) = magnitude)
    (hfinite : magnitude < binary64.infinity) (htop : binary64.infinity ≤ magnitude + 7) :
    ∃ i < 16, ∃ j : Nat, j < 2 ∧ m * 10 ^ j = topSignificand i ∧ s = 292 + (j : Int) := by
  have hden : 10 ^ (-s).toNat ≠ 0 := (Nat.pow_pos (by decide)).ne'
  have hmono := (value_strictMono (f := binary64) (by decide)).monotone
  have hmany : 8 ≤ binary64.infinity := by decide
  obtain ⟨below, rfl⟩ : ∃ below, magnitude = below + 1 := ⟨magnitude - 1, by omega⟩
  have hlow := lt_of_lt_of_le (lt_of_lt_of_le le_value_top (hmono (show binary64.infinity - 8 ≤ below by omega)))
    (value_pred_le_of_round (by decide) hden h)
  have hhigh := lt_of_le_of_lt (le_trans (le_value_succ_of_round (by decide) hden h hfinite) (hmono hfinite))
    value_infinity_le
  rw [natCast_div_ten_pow] at hlow hhigh
  have hscale := le_scale_of_top hlt hlow
  obtain ⟨j, rfl⟩ : ∃ j : Nat, s = 292 + (j : Int) := ⟨(s - 292).toNat, by omega⟩
  have hproduct : (m : ℚ) * 10 ^ (292 + (j : Int)) = (m * 10 ^ j : Nat) * 10 ^ 292 := by
    have hunit : (10 : ℚ) ^ (292 : Int) = 10 ^ 292 := zpow_natCast 10 292
    rw [ten_zpow_add, hunit, zpow_natCast, Nat.cast_mul, Nat.cast_pow, Nat.cast_ofNat, mul_comm ((10 : ℚ) ^ 292),
      mul_assoc]
  rw [hproduct] at hlow hhigh
  have hten : (0 : ℚ) < 10 ^ 292 := pow_pos (by norm_num) 292
  have hbelow : 17976931348623143 < m * 10 ^ j := by exact_mod_cast lt_of_mul_lt_mul_right hlow (le_of_lt hten)
  have habove : m * 10 ^ j < 17976931348623160 := by exact_mod_cast lt_of_mul_lt_mul_right hhigh (le_of_lt hten)
  refine ⟨m * 10 ^ j - 17976931348623144, by omega, j, ?_, (Nat.add_sub_cancel' hbelow).symm, rfl⟩
  -- no multiple of a hundred lies between the bounds
  refine Nat.not_le.1 fun htwo => ?_
  obtain ⟨k, rfl⟩ := Nat.exists_eq_add_of_le' htwo
  have hhundred : m * 10 ^ (k + 2) = 100 * (m * 10 ^ k) := by
    rw [Nat.pow_add]
    ring
  omega

/-- **The reader misses a magnitude by a few steps at most**, and it takes none for infinity but the greatest. -/
theorem scale?_of_round (hm : 0 < m) (hlt : m < 10 ^ 17)
    (h : binary64.round (m * 10 ^ s.toNat) (10 ^ (-s).toNat) = magnitude) (hpos : 0 < magnitude)
    (hlast : magnitude + 1 < binary64.infinity) :
    ∃ found, binary64.scale? (binary64.round m 1) s = some found ∧ found < binary64.infinity ∧
      Apart (stepBound s) found magnitude := by
  have hfinite : magnitude < binary64.infinity := by omega
  -- far from the top a product cannot overflow; near it there are few significands, which are checked one by one
  rcases Nat.lt_or_ge (magnitude + 7) binary64.infinity with hrange | htop
  · obtain ⟨found, hfound, hsteps⟩ := scale?_of_lt_top hm (Nat.lt_trans hlt (by decide)) h hpos hrange
    have hle := hsteps.le
    have hbound := stepBound_le s
    exact ⟨found, hfound, by omega, hsteps⟩
  · obtain ⟨i, hi, j, hj, hproduct, rfl⟩ := exists_top hlt h hfinite htop
    have hpow : m * 10 ^ (292 + (j : Int)).toNat = topSignificand i * 10 ^ 292 := by
      rw [← hproduct, Nat.mul_assoc, ← Nat.pow_add, show (292 + (j : Int)).toNat = j + 292 by omega]
    have hone : 10 ^ (-(292 + (j : Int))).toNat = 1 := by
      rw [show (-(292 + (j : Int))).toNat = 0 by omega, Nat.pow_zero]
    have hmagnitude : topMagnitude i = magnitude := by
      rw [hpow, hone] at h
      exact h
    -- zeros of the significand may have gone into the power, and the checked one has them all
    have hmultiple : topSignificand i % 10 ^ j = 0 := by
      rw [← hproduct, Nat.mul_mod_left]
    have hsignificand : topSignificand i / 10 ^ j = m := by
      rw [← hproduct, Nat.mul_div_cancel _ (Nat.pow_pos (by decide))]
    obtain ⟨found, hfound, hbelow, hsteps⟩ := scale?_top i hi j hj ⟨hmultiple, by rw [hmagnitude]; exact hlast⟩
    rw [hsignificand] at hfound
    rw [hmagnitude] at hsteps
    exact ⟨found, hfound, hbelow, hsteps.mono (three_le_stepBound _)⟩

/-- The shortest decimal of the greatest number. -/
theorem shortest_max : binary64.shortest .even (binary64.infinity - 1) =
    ⟨[1, 7, 9, 7, 6, 9, 3, 1, 3, 4, 8, 6, 2, 3, 1, 5, 7], 309⟩ := by
  -- the greatest number is compared with the powers of ten around it, without its digits
  have hratio : binary64.ratio (binary64.infinity - 1) = ((2 ^ 53 - 1) * 2 ^ 971, 1) := by decide +kernel
  have hpoint : decimalPoint ((2 ^ 53 - 1) * 2 ^ 971) 1 = 309 := by
    have hlow : 10 ^ 308 ≤ (2 ^ 53 - 1) * 2 ^ 971 := by decide +kernel
    have hhigh : (2 ^ 53 - 1) * 2 ^ 971 < 10 ^ 309 := by decide +kernel
    generalize (2 ^ 53 - 1) * 2 ^ 971 = greatest at hlow hhigh
    have hlowq := Nat.cast_le (α := ℚ).2 hlow
    have hhighq := Nat.cast_lt (α := ℚ).2 hhigh
    rw [Nat.cast_pow, Nat.cast_ofNat, ← zpow_natCast] at hlowq hhighq
    refine decimalPoint_eq ?_ one_ne_zero ?_ ?_
    · rintro rfl
      exact absurd hlow (by decide +kernel)
    · rw [Nat.cast_one, div_one, show (309 : Int) - 1 = ((308 : Nat) : Int) by decide]
      exact hlowq
    · rw [Nat.cast_one, div_one, show (309 : Int) = ((309 : Nat) : Int) by decide]
      exact hhighq
  unfold shortest
  simp only [hratio, hpoint]
  decide +kernel

/-- **It misses nothing where nothing is lost**: the significand and the power of ten are numbers of the format. -/
theorem scale?_of_holds (hm : m ≤ 2 ^ 53) (hlow : -22 ≤ s) (hhigh : s ≤ 22)
    (h : binary64.round (m * 10 ^ s.toNat) (10 ^ (-s).toNat) = magnitude) (hfinite : magnitude < binary64.infinity) :
    binary64.scale? (binary64.round m 1) s = some magnitude := by
  have hpowers : (maxTenPower : Int) = 308 := rfl
  have hlt : m < 2 ^ 64 := Nat.lt_of_le_of_lt hm (by decide)
  -- the significand and the power are held exactly, so only the last operation rounds
  have hsignificand : binary64.value (binary64.round m 1) = m :=
    value_round_of_holds (holds_of_le (by decide) (by rwa [Int.natAbs_natCast])) (natCast_le_of_lt hlt)
  rcases Int.lt_or_le s 0 with hneg | hnonneg
  · obtain ⟨k, hk⟩ := Int.eq_ofNat_of_zero_le (show 0 ≤ -s by omega)
    obtain rfl : s = -k := by omega
    have hpower := value_ofDecimal_one (k := k) (by omega)
    have hquotient : binary64.div (binary64.round m 1) (binary64.ofDecimal 1 k) = magnitude := by
      rw [← h]
      refine div_eq_round (by decide) (Nat.pow_pos (by decide)).ne' ?_ ?_
      · rw [hpower]
        exact pow_pos (by norm_num) k
      · rw [natCast_div_ten_pow, hsignificand, hpower, zpow_neg, zpow_natCast, div_eq_mul_inv]
    rw [scale?_of_neg _ _ (by omega) hneg, Int.neg_neg, hquotient]
  · obtain ⟨k, rfl⟩ := Int.eq_ofNat_of_zero_le hnonneg
    have hpower := value_ofDecimal_one (k := k) (by omega)
    have hproduct : binary64.mul (binary64.round m 1) (binary64.ofDecimal 1 k) = magnitude := by
      rw [← h]
      refine mul_eq_round (by decide) (Nat.pow_pos (by decide)).ne' ?_
      rw [natCast_div_ten_pow, hsignificand, hpower, zpow_natCast]
    rw [scale?_of_nonneg _ _ hnonneg (by omega), hproduct, if_neg (by omega)]

end Format

end TableForest
