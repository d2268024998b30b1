import Mathlib.Tactic.Ring
import TableForest.Number.Binary

/-!
# Rounding depends on the value

`Format.round` takes a fraction apart by its logarithms.  Here its outcome is tied to the value alone: equal
fractions round alike, every magnitude is what its own fraction rounds to, and what is rounded to a positive
finite magnitude lies between two powers of two.

## The architecture

* **`Format.IsUnit`** says what the exponent of the last bit is without logarithms, and
  **`unitExponent_eq`** that nothing else has this property.
* **`round_eq_of_isUnit`** is the rule of rounding from there on; **`round_congr`** and **`round_ratio`** are
  read off it.
-/

namespace TableForest.Format

/-! ## The nearest integer -/

/-- Equal quotients have the same nearest integer. -/
theorem divNearest_congr {n d n' d' : Nat} (hd : 0 < d) (hd' : 0 < d') (h : n * d' = n' * d) :
    divNearest n d = divNearest n' d' := by
  have hquotient : n / d = n' / d' := by
    rw [← Nat.mul_div_mul_right n d hd', h, Nat.mul_comm d d', Nat.mul_div_mul_right n' d' hd]
  have hrest : n % d * d' = n' % d' * d := by
    rw [← Nat.mul_mod_mul_right, h, Nat.mul_comm d d', Nat.mul_mod_mul_right]
  -- Rests of equal quotients are compared with the halves of their denominators, which grow alike.
  have hbelow : 2 * (n % d) < d ↔ 2 * (n' % d') < d' := by
    rw [← Nat.mul_lt_mul_right hd', ← Nat.mul_lt_mul_right (b := 2 * (n' % d')) hd, Nat.mul_assoc, hrest,
      Nat.mul_comm d d', Nat.mul_assoc]
  have habove : d < 2 * (n % d) ↔ d' < 2 * (n' % d') := by
    rw [← Nat.mul_lt_mul_right hd', ← Nat.mul_lt_mul_right (c := 2 * (n' % d')) hd, Nat.mul_assoc, hrest,
      Nat.mul_comm d d', Nat.mul_assoc]
  unfold divNearest
  simp only [hquotient, hbelow, habove]

theorem divNearest_of_dvd (m : Nat) {d : Nat} (hd : 0 < d) : divNearest (m * d) d = m := by
  unfold divNearest
  rw [Nat.mul_mod_left, Nat.mul_div_cancel _ hd, if_pos (by omega)]

/-- Nothing below a half is nearer to one. -/
theorem le_of_divNearest_pos {n d : Nat} (h : 0 < divNearest n d) : d ≤ 2 * n := by
  refine Decidable.byContradiction fun hlt => ?_
  have hsmall : n / d = 0 := Nat.div_eq_of_lt (by omega)
  have hmod : n % d = n := Nat.mod_eq_of_lt (by omega)
  unfold divNearest at h
  rw [hsmall, hmod, if_pos (by omega)] at h
  exact Nat.lt_irrefl 0 h

/-! ## Units -/

theorem inUnits_snd_pos (num : Nat) {den : Nat} (hden : 0 < den) (e : Int) :
    0 < (inUnits num den e).2 :=
  Nat.mul_pos hden (Nat.two_pow_pos _)

/-- Units that are `k` steps greater make the quotient `2 ^ k` times smaller. -/
theorem inUnits_cross (num den : Nat) {e e' : Int} (h : e ≤ e') :
    (inUnits num den e).1 * (inUnits num den e').2 =
      2 ^ (e' - e).toNat * ((inUnits num den e').1 * (inUnits num den e).2) := by
  have hpow : 2 ^ (-e).toNat * 2 ^ e'.toNat = 2 ^ (e' - e).toNat * (2 ^ (-e').toNat * 2 ^ e.toNat) := by
    rw [← Nat.pow_add, ← Nat.pow_add, ← Nat.pow_add]
    congr 1
    omega
  calc (num * 2 ^ (-e).toNat) * (den * 2 ^ e'.toNat)
      = num * den * (2 ^ (-e).toNat * 2 ^ e'.toNat) := by ring
    _ = num * den * (2 ^ (e' - e).toNat * (2 ^ (-e').toNat * 2 ^ e.toNat)) := by rw [hpow]
    _ = 2 ^ (e' - e).toNat * ((num * 2 ^ (-e').toNat) * (den * 2 ^ e.toNat)) := by ring

theorem inUnits_congr {num den num' den' : Nat} (h : num * den' = num' * den) (e : Int) :
    (inUnits num den e).1 * (inUnits num' den' e).2 =
      (inUnits num' den' e).1 * (inUnits num den e).2 := by
  calc (num * 2 ^ (-e).toNat) * (den' * 2 ^ e.toNat)
      = num * den' * (2 ^ (-e).toNat * 2 ^ e.toNat) := by ring
    _ = num' * den * (2 ^ (-e).toNat * 2 ^ e.toNat) := by rw [h]
    _ = (num' * 2 ^ (-e).toNat) * (den * 2 ^ e.toNat) := by ring

/-- A comparison with a multiple of the denominator is one of values. -/
theorem lt_mul_congr {n d n' d' : Nat} (hd : 0 < d) (hd' : 0 < d') (h : n * d' = n' * d) (c : Nat) :
    n < c * d ↔ n' < c * d' := by
  rw [← Nat.mul_lt_mul_right hd', ← Nat.mul_lt_mul_right (b := n') hd, h, Nat.mul_assoc, Nat.mul_assoc,
    Nat.mul_comm d d']

/-- `2 ^ e` is the worth of the last bit of `num / den`: the quotient needs no more bits than there are, and
it needs all of them unless the exponent is the least. -/
structure IsUnit (f : Format) (num den : Nat) (e : Int) : Prop where
  least : f.minExponent ≤ e
  upper : (inUnits num den e).1 < 2 ^ f.precision * (inUnits num den e).2
  lower : e = f.minExponent ∨ 2 ^ (f.precision - 1) * (inUnits num den e).2 ≤ (inUnits num den e).1

variable {f : Format} {num den : Nat}

theorem two_pow_precision (hp : 0 < f.precision) : 2 ^ f.precision = 2 * f.binade := by
  show 2 ^ f.precision = 2 * 2 ^ (f.precision - 1)
  rw [← Nat.pow_succ', Nat.succ_eq_add_one, Nat.sub_add_cancel hp]

theorem IsUnit.unique {e e' : Int} (hp : 0 < f.precision) (hden : 0 < den) (h : f.IsUnit num den e)
    (h' : f.IsUnit num den e') : e = e' := by
  -- The two are equal if neither is smaller: in the smaller units the quotient would have a bit too many.
  have hle : ∀ {a b : Int}, f.IsUnit num den a → f.IsUnit num den b → b ≤ a := by
    intro a b ha hb
    refine Decidable.byContradiction fun hlt => ?_
    have hlower : 2 ^ (f.precision - 1) * (inUnits num den b).2 ≤ (inUnits num den b).1 :=
      hb.lower.resolve_left fun hleast => by
        have := ha.least
        omega
    have hcross := inUnits_cross num den (show a ≤ b by omega)
    have hpos := inUnits_snd_pos num hden a
    have hpos' := inUnits_snd_pos num hden b
    have hsucc : 2 ^ f.precision = 2 * 2 ^ (f.precision - 1) := two_pow_precision hp
    have htwo : 2 ≤ 2 ^ (b - a).toNat := Nat.le_self_pow (by omega) 2
    have hupper := Nat.mul_lt_mul_of_pos_right ha.upper hpos'
    have hstep : 2 * (2 ^ (f.precision - 1) * (inUnits num den b).2) * (inUnits num den a).2 ≤
        2 ^ (b - a).toNat * (inUnits num den b).1 * (inUnits num den a).2 :=
      Nat.mul_le_mul_right _ (Nat.mul_le_mul htwo hlower)
    rw [hcross, hsucc] at hupper
    refine Nat.lt_irrefl _ (Nat.lt_of_lt_of_le hupper (Nat.le_trans (Nat.le_of_eq ?_) (Nat.le_trans hstep
      (Nat.le_of_eq ?_))))
    · ring
    · ring
  exact Int.le_antisymm (hle h' h) (hle h h')

theorem IsUnit.congr {num' den' : Nat} {e : Int} (hden : 0 < den) (hden' : 0 < den')
    (h : num * den' = num' * den) (hunit : f.IsUnit num den e) : f.IsUnit num' den' e := by
  have hcross := inUnits_congr h e
  have hpos := inUnits_snd_pos num hden e
  have hpos' := inUnits_snd_pos num' hden' e
  refine ⟨hunit.least, (lt_mul_congr hpos hpos' hcross _).1 hunit.upper, hunit.lower.imp id ?_⟩
  intro hlower
  have hnot := (lt_mul_congr hpos hpos' hcross (2 ^ (f.precision - 1))).not
  rw [Nat.not_lt, Nat.not_lt] at hnot
  exact hnot.1 hlower

/-- In units of at least `num / den` less its logarithm the quotient is below `2 ^ (precision + 1)`. -/
theorem inUnits_lt (hden : den ≠ 0) {e : Int}
    (he : (num.log2 : Int) - den.log2 - f.precision ≤ e) :
    (inUnits num den e).1 < 2 ^ (f.precision + 1) * (inUnits num den e).2 := by
  have hnumlt : num < 2 ^ (num.log2 + 1) := Nat.lt_log2_self
  have hdenle : 2 ^ den.log2 ≤ den := Nat.log2_self_le hden
  calc num * 2 ^ (-e).toNat
      < 2 ^ (num.log2 + 1) * 2 ^ (-e).toNat :=
        Nat.mul_lt_mul_of_pos_right hnumlt (Nat.two_pow_pos _)
    _ = 2 ^ (num.log2 + 1 + (-e).toNat) := (Nat.pow_add ..).symm
    _ ≤ 2 ^ (f.precision + 1 + den.log2 + e.toNat) := Nat.pow_le_pow_right (by omega) (by omega)
    _ = 2 ^ (f.precision + 1) * (2 ^ den.log2 * 2 ^ e.toNat) := by
        rw [Nat.pow_add, Nat.pow_add, Nat.mul_assoc]
    _ ≤ 2 ^ (f.precision + 1) * (den * 2 ^ e.toNat) :=
        Nat.mul_le_mul_left _ (Nat.mul_le_mul_right _ hdenle)

/-- In units of at most `num / den` less its logarithm the quotient is at least `2 ^ (precision - 1)`. -/
theorem le_inUnits (hp : 0 < f.precision) (hnum : num ≠ 0) {e : Int}
    (he : e ≤ (num.log2 : Int) - den.log2 - f.precision) :
    2 ^ (f.precision - 1) * (inUnits num den e).2 ≤ (inUnits num den e).1 := by
  have hnumle : 2 ^ num.log2 ≤ num := Nat.log2_self_le hnum
  have hdenlt : den < 2 ^ (den.log2 + 1) := Nat.lt_log2_self
  calc 2 ^ (f.precision - 1) * (den * 2 ^ e.toNat)
      ≤ 2 ^ (f.precision - 1) * (2 ^ (den.log2 + 1) * 2 ^ e.toNat) :=
        Nat.mul_le_mul_left _ (Nat.mul_le_mul_right _ (Nat.le_of_lt hdenlt))
    _ = 2 ^ (f.precision - 1 + (den.log2 + 1) + e.toNat) := by
        rw [← Nat.pow_add, ← Nat.pow_add, ← Nat.add_assoc]
    _ ≤ 2 ^ (num.log2 + (-e).toNat) := Nat.pow_le_pow_right (by omega) (by omega)
    _ = 2 ^ num.log2 * 2 ^ (-e).toNat := Nat.pow_add ..
    _ ≤ num * 2 ^ (-e).toNat := Nat.mul_le_mul_right _ hnumle

/-- The exponent that the format works out is that of the last bit. -/
theorem isUnit_unitExponent (hp : 0 < f.precision) (hnum : num ≠ 0) (hden : den ≠ 0) :
    f.IsUnit num den (f.unitExponent num den) := by
  have hdenpos : 0 < den := Nat.pos_of_ne_zero hden
  unfold unitExponent
  generalize hguess : max f.minExponent ((num.log2 : Int) - den.log2 - f.precision) = e
  have hpos := inUnits_snd_pos num hdenpos e
  simp only
  split
  · -- the quotient has one bit too many in the units that the logarithms suggest
    rename_i hbig
    have hbig' : 2 ^ f.precision * (inUnits num den e).2 ≤ (inUnits num den e).1 :=
      (Nat.le_div_iff_mul_le hpos).1 hbig
    have hlt : (inUnits num den e).1 < 2 ^ (f.precision + 1) * (inUnits num den e).2 :=
      inUnits_lt hden (by omega)
    have hcross := inUnits_cross num den (show e ≤ e + 1 by omega)
    rw [show (e + 1 - e).toNat = 1 by omega, Nat.pow_one] at hcross
    have hpos' := inUnits_snd_pos num hdenpos (e + 1)
    refine ⟨by omega, ?_, .inr ?_⟩
    · have hmul := Nat.mul_lt_mul_of_pos_right hlt hpos'
      rw [hcross, Nat.pow_succ] at hmul
      refine Nat.lt_of_mul_lt_mul_left (a := 2 * (inUnits num den e).2) (Nat.lt_of_le_of_lt
        (Nat.le_of_eq ?_) (Nat.lt_of_lt_of_le hmul (Nat.le_of_eq ?_)))
      · ring
      · ring
    · have hmul := Nat.mul_le_mul_right (inUnits num den (e + 1)).2 hbig'
      have hsucc : 2 ^ f.precision = 2 * 2 ^ (f.precision - 1) := two_pow_precision hp
      rw [hcross, hsucc] at hmul
      refine Nat.le_of_mul_le_mul_left (c := 2 * (inUnits num den e).2) (Nat.le_trans
        (Nat.le_of_eq ?_) (Nat.le_trans hmul (Nat.le_of_eq ?_))) (by omega)
      · ring
      · ring
  · -- the guess is right, and it is below the logarithms only where the least exponent is above them
    rename_i hsmall
    refine ⟨by omega, ?_, ?_⟩
    · rw [Nat.not_le] at hsmall
      exact (Nat.div_lt_iff_lt_mul hpos).1 hsmall
    · by_cases hleast : e = f.minExponent
      · exact .inl hleast
      · exact .inr (le_inUnits hp hnum (by omega))

theorem unitExponent_eq (hp : 0 < f.precision) (hnum : num ≠ 0) (hden : den ≠ 0) {e : Int}
    (h : f.IsUnit num den e) : f.unitExponent num den = e :=
  (isUnit_unitExponent hp hnum hden).unique hp (Nat.pos_of_ne_zero hden) h

/-! ## Rounding -/

theorem round_eq_of_isUnit (hp : 0 < f.precision) (hnum : num ≠ 0) (hden : den ≠ 0) {e : Int}
    (h : f.IsUnit num den e) :
    f.round num den = min ((e - f.minExponent).toNat * f.binade
      + divNearest (inUnits num den e).1 (inUnits num den e).2) f.infinity := by
  unfold round
  rw [if_neg hnum, unitExponent_eq hp hnum hden h]

/-- **Equal fractions round alike.** -/
theorem round_congr (hp : 0 < f.precision) {num' den' : Nat} (hden : den ≠ 0) (hden' : den' ≠ 0)
    (h : num * den' = num' * den) : f.round num den = f.round num' den' := by
  have hpos : 0 < den := Nat.pos_of_ne_zero hden
  have hpos' : 0 < den' := Nat.pos_of_ne_zero hden'
  -- Zero has no unit.
  by_cases hnum : num = 0
  · have hnum' : num' = 0 := by
      rw [hnum, Nat.zero_mul] at h
      exact (Nat.mul_eq_zero.1 h.symm).resolve_right hden
    rw [hnum, hnum']
    rfl
  · have hnum' : num' ≠ 0 := by
      intro hzero
      rw [hzero, Nat.zero_mul] at h
      exact (Nat.mul_eq_zero.1 h).elim hnum hden'
    have hunit := isUnit_unitExponent (f := f) hp hnum hden
    rw [round_eq_of_isUnit hp hnum hden hunit, round_eq_of_isUnit hp hnum' hden' (hunit.congr hpos hpos' h),
      divNearest_congr (inUnits_snd_pos num hpos _) (inUnits_snd_pos num' hpos' _) (inUnits_congr h _)]

/-- The significand of a magnitude has no more bits than there are, and all of them unless the exponent is the
least. -/
structure IsParts (f : Format) (magnitude m : Nat) (e : Int) : Prop where
  least : f.minExponent ≤ e
  upper : m < 2 ^ f.precision
  lower : e = f.minExponent ∨ f.binade ≤ m
  value : (e - f.minExponent).toNat * f.binade + m = magnitude

theorem isParts_parts (hp : 0 < f.precision) (magnitude : Nat) :
    f.IsParts magnitude (f.parts magnitude).1 (f.parts magnitude).2 := by
  have hsplit := Nat.div_add_mod magnitude f.binade
  have hmod := Nat.mod_lt magnitude f.binade_pos
  have hdouble := two_pow_precision hp
  unfold parts
  generalize magnitude / f.binade = field at hsplit
  generalize magnitude % f.binade = rest at hsplit hmod
  simp only
  split
  -- the subnormal numbers and the first binade share their unit, and the others have a unit of their own
  · rename_i hfield
    rw [hfield, Nat.mul_zero, Nat.zero_add] at hsplit
    refine ⟨Int.le_refl _, by omega, .inl rfl, ?_⟩
    rw [Int.sub_self, Int.toNat_zero, Nat.zero_mul, Nat.zero_add, hsplit]
  · rename_i hfield
    obtain ⟨k, rfl⟩ := Nat.exists_eq_succ_of_ne_zero hfield
    refine ⟨by omega, by omega, .inr (Nat.le_add_right _ _), ?_⟩
    rw [show (f.minExponent + (k.succ : Nat) - 1 - f.minExponent).toNat = k by omega, ← hsplit,
      Nat.mul_succ, Nat.mul_comm k, Nat.add_assoc]

/-- **A finite magnitude is what its own fraction rounds to.** -/
theorem round_ratio (hp : 0 < f.precision) {magnitude : Nat} (hpos : 0 < magnitude)
    (hfinite : magnitude < f.infinity) :
    f.round (f.ratio magnitude).1 (f.ratio magnitude).2 = magnitude := by
  have hparts := isParts_parts hp magnitude
  unfold ratio
  generalize f.parts magnitude = parts at hparts ⊢
  obtain ⟨m, e⟩ := parts
  simp only at hparts ⊢
  have hm : m ≠ 0 := by
    rintro rfl
    rcases hparts.lower with hleast | hlarge
    · have hvalue := hparts.value
      rw [hleast, Int.sub_self, Int.toNat_zero, Nat.zero_mul] at hvalue
      omega
    · have := f.binade_pos
      omega
  -- the parts of a magnitude already are in the units of its last bit
  have hfst : (inUnits (m * 2 ^ e.toNat) (2 ^ (-e).toNat) e).1 =
      m * (inUnits (m * 2 ^ e.toNat) (2 ^ (-e).toNat) e).2 := by
    show m * 2 ^ e.toNat * 2 ^ (-e).toNat = m * (2 ^ (-e).toNat * 2 ^ e.toNat)
    ring
  have hsnd := inUnits_snd_pos (m * 2 ^ e.toNat) (Nat.two_pow_pos (-e).toNat) e
  have hunit : f.IsUnit (m * 2 ^ e.toNat) (2 ^ (-e).toNat) e := by
    refine ⟨hparts.least, ?_, hparts.lower.imp id fun hbm => ?_⟩
    · rw [hfst]
      exact Nat.mul_lt_mul_of_pos_right hparts.upper hsnd
    · rw [hfst]
      exact Nat.mul_le_mul_right _ hbm
  show f.round (m * 2 ^ e.toNat) (2 ^ (-e).toNat) = magnitude
  rw [round_eq_of_isUnit hp (Nat.mul_ne_zero hm (Nat.two_pow_pos _).ne') (Nat.two_pow_pos _).ne' hunit,
    hfst, divNearest_of_dvd m hsnd, hparts.value]
  exact Nat.min_eq_left (Nat.le_of_lt hfinite)

/-! ## The range -/

/-- The unit of what rounds to a finite magnitude lies in the range of the exponent field. -/
theorem IsUnit.lt_of_round_lt (hp : 0 < f.precision) (hnum : num ≠ 0) (hden : den ≠ 0) {e : Int}
    (h : f.IsUnit num den e) (hfinite : f.round num den < f.infinity) :
    (e - f.minExponent).toNat < 2 ^ f.exponentBits - 1 := by
  rw [round_eq_of_isUnit hp hnum hden h] at hfinite
  refine Decidable.byContradiction fun hge => ?_
  have hbig : f.infinity ≤ (e - f.minExponent).toNat * f.binade :=
    Nat.mul_le_mul_right _ (Nat.not_lt.1 hge)
  rw [Nat.min_eq_right (by omega)] at hfinite
  exact Nat.lt_irrefl _ hfinite

/-- What rounds to a finite magnitude is below a power of two. -/
theorem lt_of_round_lt_infinity (hp : 0 < f.precision) (hden : den ≠ 0)
    (hfinite : f.round num den < f.infinity) {k : Nat}
    (hk : f.minExponent + ((2 ^ f.exponentBits - 1 : Nat) : Int) + f.precision ≤ k) :
    num < 2 ^ k * den := by
  by_cases hnum : num = 0
  · rw [hnum]
    exact Nat.mul_pos (Nat.two_pow_pos _) (Nat.pos_of_ne_zero hden)
  · have hunit := isUnit_unitExponent (f := f) hp hnum hden
    -- In its own units the quotient is below `2 ^ precision`, and the units are bounded by the range.
    have hrange := hunit.lt_of_round_lt hp hnum hden hfinite
    generalize f.unitExponent num den = e at hunit hrange
    refine Nat.lt_of_mul_lt_mul_right (a := 2 ^ (-e).toNat) (Nat.lt_of_lt_of_le hunit.upper ?_)
    calc 2 ^ f.precision * (den * 2 ^ e.toNat)
        = 2 ^ (f.precision + e.toNat) * den := by
          rw [Nat.pow_add]
          ring
      _ ≤ 2 ^ (k + (-e).toNat) * den :=
          Nat.mul_le_mul_right _ (Nat.pow_le_pow_right (by omega) (by omega))
      _ = 2 ^ k * den * 2 ^ (-e).toNat := by
          rw [Nat.pow_add]
          ring

/-- What rounds to a positive magnitude is not below a power of two. -/
theorem le_of_round_pos (hp : 0 < f.precision) (hden : den ≠ 0) (hpos : 0 < f.round num den) {k : Nat}
    (hk : 1 - f.minExponent ≤ k) : den ≤ 2 ^ k * num := by
  have hnum : num ≠ 0 := by
    rintro rfl
    exact Nat.lt_irrefl 0 hpos
  have hunit := isUnit_unitExponent (f := f) hp hnum hden
  rw [round_eq_of_isUnit hp hnum hden hunit] at hpos
  generalize f.unitExponent num den = e at hunit hpos
  -- In the least units a half was rounded up, in all others the quotient has its leading bit.
  have hhalf : (inUnits num den e).2 ≤ 2 * (inUnits num den e).1 := by
    rcases hunit.lower with hleast | hlower
    · rw [hleast, Int.sub_self, Int.toNat_zero, Nat.zero_mul, Nat.zero_add, ← hleast] at hpos
      exact le_of_divNearest_pos (Nat.lt_min.1 hpos).1
    · have hone : 1 * (inUnits num den e).2 ≤ 2 ^ (f.precision - 1) * (inUnits num den e).2 :=
        Nat.mul_le_mul_right _ (Nat.two_pow_pos _)
      omega
  have hleast := hunit.least
  refine Nat.le_of_mul_le_mul_right (c := 2 ^ e.toNat) (Nat.le_trans hhalf ?_) (Nat.two_pow_pos _)
  calc 2 * (num * 2 ^ (-e).toNat)
      = 2 ^ (1 + (-e).toNat) * num := by
        rw [Nat.pow_add]
        ring
    _ ≤ 2 ^ (k + e.toNat) * num :=
        Nat.mul_le_mul_right _ (Nat.pow_le_pow_right (by omega) (by omega))
    _ = 2 ^ k * num * 2 ^ e.toNat := by
        rw [Nat.pow_add]
        ring

end TableForest.Format
