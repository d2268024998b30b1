import Mathlib.Order.Monotone.Basic
import Mathlib.Tactic.FieldSimp
import Mathlib.Tactic.Linarith
import Mathlib.Tactic.Positivity
import TableForest.Proofs.Number.Exact

/-!
# Rounding takes the nearest number

Magnitudes are ordered as the numbers they stand for, each a unit of its last bit above the one before.  Rounding
takes the magnitude whose number is nearest, and so it is monotone and errs by a small part of what is rounded.

## The architecture

* **`Format.value`** is the number of a magnitude; **`value_succ`** is the gap behind it, which **`value_mul_pow_le`**
  compares with the number itself.
* **`Format.nearest`** is rounding without a greatest magnitude, and **`abs_value_nearest_le`** says that no number of
  the format is nearer.
* **`round_le`** and **`le_round`** make rounding monotone, **`round_eq_of_near`** says what rounds to a given
  magnitude, and **`abs_value_nearest_sub_le_mul`** bounds the relative error.
-/

namespace TableForest.Format

variable {f : Format} {num den magnitude m : Nat} {e : Int}

theorem two_zpow_pos (e : Int) : (0 : ℚ) < 2 ^ e :=
  zpow_pos (by norm_num) e

theorem two_zpow_add (a b : Int) : (2 : ℚ) ^ (a + b) = 2 ^ a * 2 ^ b :=
  zpow_add₀ (by norm_num) a b

theorem two_zpow_le {a b : Int} (h : a ≤ b) : (2 : ℚ) ^ a ≤ 2 ^ b :=
  zpow_le_zpow_right₀ (by norm_num) h

theorem natCast_two_pow_precision (hp : 0 < f.precision) : ((2 ^ f.precision : Nat) : ℚ) = 2 * f.binade := by
  rw [two_pow_precision hp]
  push_cast
  rfl

theorem natCast_binade_pos (f : Format) : (0 : ℚ) < f.binade :=
  Nat.cast_pos.2 f.binade_pos

theorem ne_zero_of_div_pos (h : (0 : ℚ) < num / den) : num ≠ 0 := by
  rintro rfl
  rw [Nat.cast_zero, zero_div] at h
  exact lt_irrefl 0 h

/-! ## The numbers of magnitudes -/

/-- The number that a magnitude stands for. -/
def value (f : Format) (magnitude : Nat) : ℚ :=
  (f.ratio magnitude).1 / (f.ratio magnitude).2

theorem value_eq_parts (f : Format) (magnitude : Nat) :
    f.value magnitude = (f.parts magnitude).1 * 2 ^ (f.parts magnitude).2 := by
  have hpow := natCast_div_pow 2 (f.parts magnitude).1 (f.parts magnitude).2
  unfold value ratio
  exact_mod_cast hpow

theorem value_zero (f : Format) : f.value 0 = 0 := by
  simp [value_eq_parts, parts]

theorem value_nonneg (f : Format) (magnitude : Nat) : 0 ≤ f.value magnitude :=
  div_nonneg (Nat.cast_nonneg _) (Nat.cast_nonneg _)

theorem value_of_isParts (hp : 0 < f.precision) (h : f.IsParts magnitude m e) :
    f.value magnitude = m * 2 ^ e := by
  rw [value_eq_parts, parts_of_isParts hp h]

/-- The number of a magnitude that is put together from units, of which there may be one more than a significand
counts. -/
theorem value_of_units (hp : 0 < f.precision) (hleast : f.minExponent ≤ e) (hupper : m ≤ 2 ^ f.precision)
    (hlower : e = f.minExponent ∨ f.binade ≤ m) :
    f.value ((e - f.minExponent).toNat * f.binade + m) = m * 2 ^ e := by
  rcases Nat.lt_or_eq_of_le hupper with hlt | heq
  · exact value_of_isParts hp ⟨hleast, hlt, hlower, rfl⟩
  · -- one unit more than fits is the least significand of the next exponent
    have hdouble := two_pow_precision hp
    have hpos := f.binade_pos
    have hparts : f.IsParts ((e - f.minExponent).toNat * f.binade + m) f.binade (e + 1) := by
      refine ⟨by omega, by omega, .inr (Nat.le_refl _), ?_⟩
      rw [show (e + 1 - f.minExponent).toNat = (e - f.minExponent).toNat + 1 by omega, Nat.add_mul, heq]
      omega
    rw [value_of_isParts hp hparts, two_zpow_add, heq, natCast_two_pow_precision hp, zpow_one]
    ring

/-- **The next magnitude is one unit of the last bit away.** -/
theorem value_succ (hp : 0 < f.precision) (magnitude : Nat) :
    f.value (magnitude + 1) = f.value magnitude + 2 ^ (f.parts magnitude).2 := by
  have hparts := isParts_parts hp magnitude
  rw [value_eq_parts f magnitude]
  generalize f.parts magnitude = parts at hparts ⊢
  obtain ⟨m, e⟩ := parts
  have hnext := value_of_units hp hparts.least (m := m + 1) hparts.upper
    (hparts.lower.imp id fun h => Nat.le_succ_of_le h)
  rw [← Nat.add_assoc, hparts.value] at hnext
  rw [hnext]
  push_cast
  ring

theorem value_strictMono (hp : 0 < f.precision) : StrictMono f.value := by
  apply strictMono_nat_of_lt_succ
  intro magnitude
  rw [value_succ hp]
  have := two_zpow_pos (f.parts magnitude).2
  linarith

/-- No significand counts as many units as two binades have. -/
theorem value_add_le (hp : 0 < f.precision) (magnitude : Nat) :
    f.value magnitude + 2 ^ (f.parts magnitude).2 ≤ 2 * f.binade * 2 ^ (f.parts magnitude).2 := by
  have hupper : (((f.parts magnitude).1 + 1 : Nat) : ℚ) ≤ ((2 ^ f.precision : Nat) : ℚ) :=
    Nat.cast_le.2 (isParts_parts hp magnitude).upper
  rw [natCast_two_pow_precision hp] at hupper
  push_cast at hupper
  calc f.value magnitude + 2 ^ (f.parts magnitude).2
      = ((f.parts magnitude).1 + 1) * 2 ^ (f.parts magnitude).2 := by
        rw [value_eq_parts]
        ring
    _ ≤ 2 * f.binade * 2 ^ (f.parts magnitude).2 :=
        mul_le_mul_of_nonneg_right hupper (le_of_lt (two_zpow_pos _))

/-- Half of the worth of the last bit, relative to a significand with only its leading bit. -/
def roundoff (f : Format) : ℚ :=
  1 / (2 * f.binade)

theorem roundoff_pos (f : Format) : 0 < f.roundoff :=
  div_pos one_pos (mul_pos two_pos f.natCast_binade_pos)

theorem roundoff_binary64 : binary64.roundoff = 1 / 2 ^ 53 := by
  norm_num [roundoff, binade, binary64]

theorem roundoff_mul_binade (f : Format) : f.roundoff * (2 * f.binade) = 1 :=
  div_mul_cancel₀ 1 (mul_pos two_pos f.natCast_binade_pos).ne'

/-- A number and the next one differ by more than the roundoff of either. -/
theorem roundoff_mul_value_succ_le (hp : 0 < f.precision) (magnitude : Nat) :
    f.roundoff * f.value (magnitude + 1) ≤ 2 ^ (f.parts magnitude).2 := by
  have hle := mul_le_mul_of_nonneg_left (value_add_le hp magnitude) (le_of_lt f.roundoff_pos)
  rw [← mul_assoc, roundoff_mul_binade, one_mul] at hle
  rw [value_succ hp]
  exact hle

/-- **A few relative errors are made good by as many steps.** -/
theorem value_mul_pow_le (hp : 0 < f.precision) (magnitude k : Nat) :
    f.value magnitude * (1 + f.roundoff) ^ k ≤ f.value (magnitude + k) := by
  induction k with
  | zero => simp
  | succ k ih =>
    have hgap := roundoff_mul_value_succ_le hp (magnitude + k)
    have hmono := (value_strictMono hp (Nat.lt_succ_self (magnitude + k))).le
    have hpos := f.roundoff_pos
    calc f.value magnitude * (1 + f.roundoff) ^ (k + 1)
        = f.value magnitude * (1 + f.roundoff) ^ k * (1 + f.roundoff) := by rw [pow_succ, mul_assoc]
      _ ≤ f.value (magnitude + k) * (1 + f.roundoff) := mul_le_mul_of_nonneg_right ih (by linarith)
      _ = f.value (magnitude + k) + f.roundoff * f.value (magnitude + k) := by ring
      _ ≤ f.value (magnitude + k) + f.roundoff * f.value (magnitude + k + 1) :=
          add_le_add_right (mul_le_mul_of_nonneg_left hmono (le_of_lt hpos)) _
      _ ≤ f.value (magnitude + k) + 2 ^ (f.parts (magnitude + k)).2 := add_le_add_right hgap _
      _ = f.value (magnitude + (k + 1)) := (value_succ hp _).symm

/-! ## The nearest integer -/

theorem le_divNearest {n d c : Nat} (hd : 0 < d) (h : c * d ≤ n) : c ≤ divNearest n d := by
  have hquotient : c ≤ n / d := (Nat.le_div_iff_mul_le hd).2 h
  unfold divNearest
  simp only
  split
  · exact hquotient
  · split <;> omega

theorem divNearest_le {n d c : Nat} (hd : 0 < d) (h : n < c * d) : divNearest n d ≤ c := by
  have hquotient : n / d < c := (Nat.div_lt_iff_lt_mul hd).2 h
  unfold divNearest
  simp only
  split
  · omega
  · split <;> omega

/-- The nearest integer is half a unit away at most, counted in units of the denominator. -/
theorem divNearest_mul_distance (n : Nat) {d : Nat} (hd : 0 < d) :
    2 * (divNearest n d * d : Int) ≤ 2 * n + d ∧ 2 * (n : Int) ≤ 2 * (divNearest n d * d) + d := by
  have hlt := Nat.mod_lt n hd
  have hsplit := Nat.div_add_mod n d
  rw [Nat.mul_comm] at hsplit
  unfold divNearest
  simp only
  generalize n / d = q at hsplit
  generalize n % d = r at hsplit hlt
  have hcast : (q * d : Int) + r = n := by exact_mod_cast hsplit
  split
  · constructor <;> omega
  · split
    · push_cast
      rw [add_mul]
      constructor <;> omega
    · -- in the middle the even quotient is taken
      rcases Nat.mod_two_eq_zero_or_one q with h | h
      · rw [h, Nat.add_zero]
        constructor <;> omega
      · rw [h]
        push_cast
        rw [add_mul]
        constructor <;> omega

theorem abs_divNearest_sub_le (n : Nat) {d : Nat} (hd : 0 < d) :
    |(divNearest n d : ℚ) - n / d| ≤ 1 / 2 := by
  have hdq : (0 : ℚ) < d := Nat.cast_pos.2 hd
  obtain ⟨habove, hbelow⟩ := divNearest_mul_distance n hd
  have haboveq : 2 * ((divNearest n d : ℚ) * d) ≤ 2 * n + d := by exact_mod_cast habove
  have hbelowq : 2 * (n : ℚ) ≤ 2 * (divNearest n d * d) + d := by exact_mod_cast hbelow
  have hquotient : (n : ℚ) / d * d = n := div_mul_cancel₀ _ hdq.ne'
  rw [abs_le]
  constructor
  · refine le_of_mul_le_mul_right ?_ hdq
    rw [sub_mul, hquotient]
    linarith
  · refine le_of_mul_le_mul_right ?_ hdq
    rw [sub_mul, hquotient]
    linarith

/-- No other integer is nearer. -/
theorem abs_divNearest_le (n : Nat) {d : Nat} (hd : 0 < d) (k : Nat) :
    |(divNearest n d : ℚ) - n / d| ≤ |(k : ℚ) - n / d| := by
  have hhalf := abs_divNearest_sub_le n hd
  by_cases heq : divNearest n d = k
  · rw [heq]
  · -- two integers are a whole unit apart
    have hunit : (1 : ℚ) ≤ |(divNearest n d : ℚ) - k| := by
      have hint : (1 : Int) ≤ |(divNearest n d : Int) - k| := Int.one_le_abs (by omega)
      exact_mod_cast hint
    have htriangle := abs_sub_le (divNearest n d : ℚ) (n / d) k
    rw [abs_sub_comm ((n : ℚ) / d) k] at htriangle
    linarith

/-! ## The nearest magnitude -/

/-- The magnitude nearest to `num / den`, if there were no greatest one. -/
def nearest (f : Format) (num den : Nat) : Nat :=
  let e := f.unitExponent num den
  (e - f.minExponent).toNat * f.binade + divNearest (inUnits num den e).1 (inUnits num den e).2

theorem round_eq_min (hnum : num ≠ 0) : f.round num den = min (f.nearest num den) f.infinity := by
  unfold round nearest
  rw [if_neg hnum]

theorem round_eq_nearest (hnum : num ≠ 0) (hfinite : f.round num den < f.infinity) :
    f.round num den = f.nearest num den := by
  have hmin : f.round num den = min (f.nearest num den) f.infinity := round_eq_min hnum
  omega

theorem inUnits_div (num den : Nat) (e : Int) :
    ((inUnits num den e).1 : ℚ) / (inUnits num den e).2 = num / den / 2 ^ e := by
  have hunits := natCast_div_mul_pow 2 num den e
  rwa [Nat.cast_ofNat] at hunits

/-- The nearest magnitude counts the nearest integer of units. -/
theorem value_nearest (hp : 0 < f.precision) (hnum : num ≠ 0) (hden : den ≠ 0) :
    f.value (f.nearest num den) =
      divNearest (inUnits num den (f.unitExponent num den)).1 (inUnits num den (f.unitExponent num den)).2
        * 2 ^ f.unitExponent num den := by
  have hunit := isUnit_unitExponent (f := f) hp hnum hden
  have hpos := inUnits_snd_pos num (Nat.pos_of_ne_zero hden) (f.unitExponent num den)
  exact value_of_units hp hunit.least (divNearest_le hpos hunit.upper)
    (hunit.lower.imp id fun hlower => le_divNearest hpos hlower)

/-- What has a greater unit than the least has at least a binade of them. -/
theorem binade_le_of_isUnit (hunit : f.IsUnit num den e) (hden : den ≠ 0) (hne : e ≠ f.minExponent) :
    f.binade * 2 ^ e ≤ (num : ℚ) / den := by
  have hpos := inUnits_snd_pos num (Nat.pos_of_ne_zero hden) e
  have hlower : (f.binade : ℚ) * (inUnits num den e).2 ≤ (inUnits num den e).1 := by
    exact_mod_cast hunit.lower.resolve_left hne
  rw [← le_div_iff₀ (two_zpow_pos e), ← inUnits_div, le_div_iff₀ (Nat.cast_pos.2 hpos)]
  exact hlower

/-- **No number of the format is nearer.** -/
theorem abs_value_nearest_le (hp : 0 < f.precision) (hnum : num ≠ 0) (hden : den ≠ 0) (magnitude : Nat) :
    |f.value (f.nearest num den) - num / den| ≤ |f.value magnitude - num / den| := by
  have hunit := isUnit_unitExponent (f := f) hp hnum hden
  have hvalue := value_nearest (f := f) hp hnum hden
  have hpos := inUnits_snd_pos num (Nat.pos_of_ne_zero hden) (f.unitExponent num den)
  generalize f.unitExponent num den = e at hunit hvalue hpos
  have hscale := two_zpow_pos e
  have hquotient := inUnits_div num den e
  rw [eq_div_iff hscale.ne'] at hquotient
  -- Multiples of the unit are compared as integers.
  have hmultiple : ∀ k : Nat, |f.value (f.nearest num den) - num / den| ≤ |k * 2 ^ e - (num : ℚ) / den| := by
    intro k
    have hinteger := abs_divNearest_le (inUnits num den e).1 hpos k
    rw [hvalue, ← hquotient, ← sub_mul, ← sub_mul, abs_mul, abs_mul]
    exact mul_le_mul_of_nonneg_right hinteger (abs_nonneg _)
  rcases Int.lt_or_le (f.parts magnitude).2 e with hsmall | hlarge
  · -- a number with a smaller unit lies below all significands of the unit, and these are multiples
    have hbinade := binade_le_of_isUnit hunit hden (by
      have := minExponent_le_parts f magnitude
      omega)
    have hbelow : f.value magnitude ≤ f.binade * 2 ^ e := by
      have hle := value_add_le hp magnitude
      have hunits := two_zpow_pos (f.parts magnitude).2
      have hpow := two_zpow_le (show (f.parts magnitude).2 + 1 ≤ e by omega)
      rw [two_zpow_add, zpow_one] at hpow
      calc f.value magnitude ≤ f.binade * (2 ^ (f.parts magnitude).2 * 2) := by linarith
        _ ≤ f.binade * 2 ^ e := mul_le_mul_of_nonneg_left hpow (le_of_lt f.natCast_binade_pos)
    refine le_trans (hmultiple f.binade) ?_
    rw [abs_of_nonpos (by linarith), abs_of_nonpos (by linarith)]
    linarith
  · -- any other number is a multiple of the unit
    have hint : f.value magnitude =
        ((f.parts magnitude).1 * 2 ^ ((f.parts magnitude).2 - e).toNat : Nat) * 2 ^ e := by
      rw [value_eq_parts, Nat.cast_mul, mul_assoc, Nat.cast_pow, Nat.cast_ofNat, ← zpow_natCast, ← two_zpow_add,
        Int.toNat_of_nonneg (by omega), Int.sub_add_cancel]
    rw [hint]
    exact hmultiple _

/-! ## What rounding makes of a number -/

/-- **Rounding goes no further than a magnitude that is greater.** -/
theorem round_le (hp : 0 < f.precision) (hden : den ≠ 0) (h : (num : ℚ) / den ≤ f.value magnitude) :
    f.round num den ≤ magnitude := by
  by_cases hnum : num = 0
  · rw [round, if_pos hnum]
    exact Nat.zero_le _
  · rw [round_eq_min hnum]
    refine Nat.le_trans (Nat.min_le_left _ _) (Nat.not_lt.1 fun hlt => ?_)
    have hvalue := value_strictMono hp hlt
    have hnearest := abs_value_nearest_le (f := f) hp hnum hden magnitude
    rw [abs_of_nonneg (by linarith), abs_of_nonneg (by linarith)] at hnearest
    linarith

/-- **It goes as far as every magnitude that is smaller.** -/
theorem le_round (hp : 0 < f.precision) (hden : den ≠ 0) (h : f.value magnitude ≤ num / den)
    (hle : magnitude ≤ f.infinity) : magnitude ≤ f.round num den := by
  by_cases hnum : num = 0
  · -- nothing but zero is as small as zero
    have hzero : ¬ 0 < magnitude := by
      intro hpos
      have hvalue := value_strictMono hp hpos
      rw [hnum, Nat.cast_zero, zero_div] at h
      rw [value_zero] at hvalue
      linarith
    omega
  · rw [round_eq_min hnum]
    refine Nat.le_min.2 ⟨Nat.not_lt.1 fun hlt => ?_, hle⟩
    have hvalue := value_strictMono hp hlt
    have hnearest := abs_value_nearest_le (f := f) hp hnum hden magnitude
    rw [abs_of_nonpos (by linarith), abs_of_nonpos (by linarith)] at hnearest
    linarith

/-- Two different numbers are apart by the roundoff of either at least. -/
theorem roundoff_mul_value_le_abs_sub (hp : 0 < f.precision) {a b : Nat} (hne : a ≠ b) :
    f.roundoff * f.value a ≤ |f.value b - f.value a| := by
  have hmono := (value_strictMono (f := f) hp).monotone
  have hoff := f.roundoff_pos
  rcases Nat.lt_or_gt_of_ne hne with hlt | hgt
  · have hgap := roundoff_mul_value_succ_le hp a
    have hnext := value_succ hp a
    have hle : f.value (a + 1) ≤ f.value b := hmono hlt
    have hself := mul_le_mul_of_nonneg_left (hmono (Nat.le_succ a)) (le_of_lt hoff)
    rw [abs_of_nonneg (by linarith [hmono (Nat.le_succ a)])]
    linarith
  · -- the one below is separated from `a` by the gap before `a`
    obtain ⟨c, rfl⟩ := Nat.exists_eq_succ_of_ne_zero (Nat.ne_zero_of_lt hgt)
    have hgap := roundoff_mul_value_succ_le hp c
    have hnext := value_succ hp c
    have hle : f.value b ≤ f.value c := hmono (Nat.le_of_lt_succ hgt)
    have hunit := two_zpow_pos (f.parts c).2
    rw [Nat.succ_eq_add_one, abs_of_nonpos (by linarith)]
    linarith

/-- **What lies within half a roundoff of a number rounds to it.** -/
theorem round_eq_of_near (hp : 0 < f.precision) (hnum : num ≠ 0) (hden : den ≠ 0) (hfinite : magnitude < f.infinity)
    (h : 2 * |(num : ℚ) / den - f.value magnitude| < f.roundoff * f.value magnitude) :
    f.round num den = magnitude := by
  have hnearest := abs_value_nearest_le (f := f) hp hnum hden magnitude
  rw [abs_sub_comm (f.value magnitude)] at hnearest
  -- Another number would be as near, and then the two would be too near to each other.
  have heq : magnitude = f.nearest num den := by
    by_contra hne
    have hgap := roundoff_mul_value_le_abs_sub hp hne
    have htriangle := abs_sub_le (f.value (f.nearest num den)) (num / den) (f.value magnitude)
    linarith
  rw [round_eq_min hnum, ← heq]
  exact Nat.min_eq_left (Nat.le_of_lt hfinite)

/-- Rounding moves by half a unit at most. -/
theorem abs_value_nearest_sub_le (hp : 0 < f.precision) (hnum : num ≠ 0) (hden : den ≠ 0) :
    |f.value (f.nearest num den) - num / den| ≤ 2 ^ f.unitExponent num den / 2 := by
  have hvalue := value_nearest (f := f) hp hnum hden
  have hpos := inUnits_snd_pos num (Nat.pos_of_ne_zero hden) (f.unitExponent num den)
  generalize f.unitExponent num den = e at hvalue hpos ⊢
  have hscale := two_zpow_pos e
  have hquotient := inUnits_div num den e
  rw [eq_div_iff hscale.ne'] at hquotient
  have hhalf := mul_le_mul_of_nonneg_right (abs_divNearest_sub_le (inUnits num den e).1 hpos) (le_of_lt hscale)
  rw [hvalue, ← hquotient, ← sub_mul, abs_mul, abs_of_pos hscale]
  linarith

theorem two_zpow_div_two (f : Format) (e : Int) : (2 : ℚ) ^ e / 2 = f.roundoff * (f.binade * 2 ^ e) := by
  calc (2 : ℚ) ^ e / 2 = f.roundoff * (2 * f.binade) * 2 ^ e / 2 := by rw [roundoff_mul_binade, one_mul]
    _ = f.roundoff * (f.binade * 2 ^ e) := by ring

/-- **The relative error of rounding** is the roundoff for what is not below the least number with a leading bit, and
`c` times as much for what is up to `c` times smaller. -/
theorem abs_value_nearest_sub_le_mul (hp : 0 < f.precision) (hnum : num ≠ 0) (hden : den ≠ 0) {c : ℚ} (hc : 1 ≤ c)
    (h : f.binade * 2 ^ f.minExponent ≤ c * (num / den)) :
    |f.value (f.nearest num den) - num / den| ≤ f.roundoff * (c * (num / den)) := by
  have hunit := isUnit_unitExponent (f := f) hp hnum hden
  have hnonneg : (0 : ℚ) ≤ num / den := div_nonneg (Nat.cast_nonneg _) (Nat.cast_nonneg _)
  have hbinade : f.binade * 2 ^ f.unitExponent num den ≤ c * ((num : ℚ) / den) := by
    by_cases hleast : f.unitExponent num den = f.minExponent
    · rw [hleast]
      exact h
    · exact le_trans (binade_le_of_isUnit hunit hden hleast) (le_mul_of_one_le_left hnonneg hc)
  calc |f.value (f.nearest num den) - num / den| ≤ 2 ^ f.unitExponent num den / 2 :=
        abs_value_nearest_sub_le hp hnum hden
    _ = f.roundoff * (f.binade * 2 ^ f.unitExponent num den) := f.two_zpow_div_two _
    _ ≤ f.roundoff * (c * (num / den)) := mul_le_mul_of_nonneg_left hbinade (le_of_lt f.roundoff_pos)

/-- It is the roundoff in relation to the rounded number as well. -/
theorem abs_value_nearest_sub_le_mul_value (hp : 0 < f.precision) (hnum : num ≠ 0) (hden : den ≠ 0)
    (h : f.binade * 2 ^ f.minExponent ≤ (num : ℚ) / den) :
    |f.value (f.nearest num den) - num / den| ≤ f.roundoff * f.value (f.nearest num den) := by
  have hhalf := abs_value_nearest_sub_le (f := f) hp hnum hden
  have hunit := isUnit_unitExponent (f := f) hp hnum hden
  have hvalue := value_nearest (f := f) hp hnum hden
  have hpos := inUnits_snd_pos num (Nat.pos_of_ne_zero hden) (f.unitExponent num den)
  -- the leading bit of what is rounded is not lost
  have hbinade : f.binade * 2 ^ f.unitExponent num den ≤ f.value (f.nearest num den) := by
    have hquotient : f.binade * 2 ^ f.unitExponent num den ≤ (num : ℚ) / den := by
      by_cases hleast : f.unitExponent num den = f.minExponent
      · rw [hleast]
        exact h
      · exact binade_le_of_isUnit hunit hden hleast
    rw [← le_div_iff₀ (two_zpow_pos _), ← inUnits_div, le_div_iff₀ (Nat.cast_pos.2 hpos)] at hquotient
    rw [hvalue]
    refine mul_le_mul_of_nonneg_right ?_ (le_of_lt (two_zpow_pos _))
    exact Nat.cast_le.2 (le_divNearest hpos (by exact_mod_cast hquotient))
  calc |f.value (f.nearest num den) - num / den| ≤ 2 ^ f.unitExponent num den / 2 := hhalf
    _ = f.roundoff * (f.binade * 2 ^ f.unitExponent num den) := f.two_zpow_div_two _
    _ ≤ f.roundoff * f.value (f.nearest num den) := mul_le_mul_of_nonneg_left hbinade (le_of_lt f.roundoff_pos)

end TableForest.Format
