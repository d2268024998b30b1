import TableForest.Proofs.Number.Value

/-!
# Seventeen digits suffice

The neighbours of a number on the grid of seventeen digits are so near to it that one of them reads back.  So the
search for the shortest decimal ends there at the latest, and the exact expansion is never written.

## The architecture

* **`decimalPoint_spec`** encloses a fraction between two powers of ten.
* **`isSome_onGrid?_seventeen`**: the nearest decimal of seventeen digits reads back.
* **`length_digits_shortest_le`** counts the digits of the shortest decimal.
-/

namespace TableForest

open Decimal

theorem length_digits_ofSignificand_le {m k : Nat} (hk : 0 < k) (h : m ≤ 10 ^ k) (e : Int) :
    (Scientific.ofSignificand m e).digits.length ≤ k := by
  unfold Scientific.ofSignificand
  simp only [List.length_reverse]
  rcases Nat.lt_or_eq_of_le h with hlt | rfl
  · -- dropping makes nothing longer
    calc ((digits m).reverse.dropWhile (· == zeroDigit)).length
        ≤ (digits m).reverse.length := (List.dropWhile_sublist _).length_le
      _ = (digits m).length := List.length_reverse
      _ ≤ k := length_digits_le hk hlt
  · -- a power of ten has one digit too many, and its last one is a zero
    obtain ⟨j, rfl⟩ := Nat.exists_eq_succ_of_ne_zero (Nat.ne_of_gt hk)
    have hdigits : digits (10 ^ (j + 1)) = digits (10 ^ j) ++ [zeroDigit] := by
      have hpos : 0 < 10 ^ j := Nat.pow_pos (by decide)
      rw [digits, Nat.pow_succ, if_neg (by omega), Nat.mul_div_cancel _ (by decide)]
      congr 2
      exact Fin.ext (Nat.mul_mod_left _ _)
    rw [Nat.succ_eq_add_one, hdigits, List.reverse_append, List.reverse_singleton, List.singleton_append,
      List.dropWhile_cons_of_pos (by rfl)]
    calc ((digits (10 ^ j)).reverse.dropWhile (· == zeroDigit)).length
        ≤ (digits (10 ^ j)).reverse.length := (List.dropWhile_sublist _).length_le
      _ = (digits (10 ^ j)).length := List.length_reverse
      _ ≤ j + 1 := length_digits_le hk (Nat.pow_lt_pow_right (by decide) (Nat.lt_succ_self j))

namespace Format

variable {num den magnitude : Nat}

theorem ten_zpow_pos (e : Int) : (0 : ℚ) < 10 ^ e :=
  zpow_pos (by norm_num) e

/-- **The point of a fraction** stands between the two powers of ten around it. -/
theorem decimalPoint_spec (hnum : num ≠ 0) (hden : den ≠ 0) :
    10 ^ (decimalPoint num den - 1) ≤ (num : ℚ) / den ∧ (num : ℚ) / den < 10 ^ decimalPoint num den := by
  have hdenq : (0 : ℚ) < den := Nat.cast_pos.2 (Nat.pos_of_ne_zero hden)
  have hnumpos := Nat.pos_of_ne_zero hnum
  unfold decimalPoint
  by_cases hle : den ≤ num
  · -- the whole part has as many digits as stand before the point
    have hdenpos := Nat.pos_of_ne_zero hden
    have hwhole : 0 < num / den := Nat.div_pos hle hdenpos
    have hlow := ten_pow_length_digits_le hwhole
    have hhigh := lt_ten_pow_length_digits (num / den)
    have hlength := List.length_pos_of_ne_nil (digits_ne_nil (num / den))
    rw [if_pos hle]
    generalize (digits (num / den)).length = k at hlow hhigh hlength
    rw [show (k : Int) - 1 = (k - 1 : Nat) by omega, zpow_natCast, zpow_natCast, le_div_iff₀ hdenq, div_lt_iff₀ hdenq]
    constructor
    · exact_mod_cast (Nat.le_div_iff_mul_le hdenpos).1 hlow
    · exact_mod_cast (Nat.div_lt_iff_lt_mul hdenpos).1 hhigh
  · -- the inverse fraction has as many digits as there are places up to the first one
    have hquotient : 0 < (den - 1) / num := Nat.div_pos (by omega) hnumpos
    have hlow := ten_pow_length_digits_le hquotient
    have hhigh := lt_ten_pow_length_digits ((den - 1) / num)
    have hlength := List.length_pos_of_ne_nil (digits_ne_nil ((den - 1) / num))
    rw [if_neg hle]
    generalize (digits ((den - 1) / num)).length = k at hlow hhigh hlength
    have hbelow : 10 ^ (k - 1) * num < den := by
      have := (Nat.le_div_iff_mul_le hnumpos).1 hlow
      omega
    have habove : den ≤ 10 ^ k * num := by
      have := (Nat.div_lt_iff_lt_mul hnumpos).1 hhigh
      omega
    rw [show (1 : Int) - k - 1 = -(k : Int) by omega, show (1 : Int) - k = -((k - 1 : Nat) : Int) by omega,
      zpow_neg, zpow_neg, zpow_natCast, zpow_natCast, le_div_iff₀ hdenq, div_lt_iff₀ hdenq]
    have hten : ∀ j : Nat, (0 : ℚ) < 10 ^ j := fun j => pow_pos (by norm_num) j
    constructor
    · rw [inv_mul_le_iff₀ (hten k)]
      exact_mod_cast habove
    · rw [lt_inv_mul_iff₀ (hten (k - 1))]
      exact_mod_cast hbelow

theorem decimalPoint_eq (hnum : num ≠ 0) (hden : den ≠ 0) {p : Int} (hlow : 10 ^ (p - 1) ≤ (num : ℚ) / den)
    (hhigh : (num : ℚ) / den < 10 ^ p) : decimalPoint num den = p := by
  obtain ⟨hle, hlt⟩ := decimalPoint_spec hnum hden
  have hbelow : p - 1 < decimalPoint num den :=
    (zpow_lt_zpow_iff_right₀ (by norm_num)).1 (lt_of_le_of_lt hlow hlt)
  have habove : decimalPoint num den - 1 < p :=
    (zpow_lt_zpow_iff_right₀ (by norm_num)).1 (lt_of_le_of_lt hle hhigh)
  omega

theorem divNearest_cases (n d : Nat) : divNearest n d = n / d ∨ divNearest n d = n / d + 1 := by
  unfold divNearest
  simp only
  split
  · exact .inl rfl
  · split
    · exact .inr rfl
    · omega

/-- A grid has a hit if the nearer of the two neighbours reads back. -/
theorem isSome_onGrid? {f : Format} (tie : Tie) {e : Int}
    (h : f.ofDecimal (divNearest (num * 10 ^ (-e).toNat) (den * 10 ^ e.toNat)) e = magnitude) :
    (f.onGrid? tie magnitude num den e).isSome = true := by
  unfold onGrid?
  simp only
  -- one of the two neighbours is what was looked for, so they cannot both miss
  split
  · rename_i hbelow habove
    have hmiss := divNearest_cases (num * 10 ^ (-e).toNat) (den * 10 ^ e.toNat)
    rcases hmiss with hcase | hcase
    · rw [hcase] at h
      exact absurd h (ne_of_beq_false hbelow)
    · rw [hcase] at h
      exact absurd h (ne_of_beq_false habove)
  · rfl
  · rfl
  · split
    · rfl
    · split
      · rfl
      · cases tie with
        | up => rfl
        | even => rfl

theorem value_pos {f : Format} (hp : 0 < f.precision) (hpos : 0 < magnitude) : 0 < f.value magnitude := by
  have hvalue := value_strictMono hp hpos
  rwa [value_zero] at hvalue

theorem ratio_fst_ne_zero {f : Format} (hp : 0 < f.precision) (hpos : 0 < magnitude) : (f.ratio magnitude).1 ≠ 0 :=
  ne_zero_of_div_pos (value_pos hp hpos)

theorem ratio_snd_ne_zero (f : Format) (magnitude : Nat) : (f.ratio magnitude).2 ≠ 0 :=
  (Nat.two_pow_pos _).ne'

/-- The nearest multiple of a power of ten is half of it away at most. -/
theorem abs_divNearest_mul_sub_le (num : Nat) (hden : den ≠ 0) (e : Int) :
    2 * |(divNearest (num * 10 ^ (-e).toNat) (den * 10 ^ e.toNat) : ℚ) * 10 ^ e - num / den| ≤ 10 ^ e := by
  have hd : 0 < den * 10 ^ e.toNat := Nat.mul_pos (Nat.pos_of_ne_zero hden) (Nat.pow_pos (by decide))
  have hhalf := abs_divNearest_sub_le (num * 10 ^ (-e).toNat) hd
  have hquotient := natCast_div_mul_pow 10 num den e
  have hgrid := ten_zpow_pos e
  rw [hquotient, Nat.cast_ofNat] at hhalf
  generalize divNearest _ _ = c at hhalf ⊢
  have hscaled : (c : ℚ) * 10 ^ e - num / den = (c - num / den / 10 ^ e) * 10 ^ e := by
    rw [sub_mul, div_mul_cancel₀ _ hgrid.ne']
  rw [hscaled, abs_mul, abs_of_pos hgrid]
  have := mul_le_mul_of_nonneg_right hhalf (le_of_lt hgrid)
  linarith

/-- **The nearest decimal of seventeen digits reads back.** -/
theorem ofDecimal_divNearest_seventeen (hpos : 0 < magnitude) (hfinite : magnitude < binary64.infinity) {e : Int}
    (he : e = decimalPoint (binary64.ratio magnitude).1 (binary64.ratio magnitude).2 - 17) :
    binary64.ofDecimal (divNearest ((binary64.ratio magnitude).1 * 10 ^ (-e).toNat)
      ((binary64.ratio magnitude).2 * 10 ^ e.toNat)) e = magnitude := by
  have hnum := ratio_fst_ne_zero (f := binary64) (by decide) hpos
  have hden := ratio_snd_ne_zero binary64 magnitude
  have hpoint := (decimalPoint_spec hnum hden).1
  have hleast : (-binary64.minExponent).toNat = 1074 := by decide
  have hplaces := le_decimalPoint (binary64.ratio magnitude).1 (by omega) (ratio_snd_le binary64 magnitude)
  have hnear := abs_divNearest_mul_sub_le (binary64.ratio magnitude).1 hden e
  have hgrid := ten_zpow_pos e
  change 2 * |_ - binary64.value magnitude| ≤ _ at hnear
  generalize divNearest _ _ = c at hnear ⊢
  -- In units of the grid the number has seventeen digits before the point.
  have hunits : 10 ^ 16 * 10 ^ e ≤ binary64.value magnitude := by
    have hexponent : ((16 : Nat) : Int) + e =
        decimalPoint (binary64.ratio magnitude).1 (binary64.ratio magnitude).2 - 1 := by
      omega
    rw [← zpow_natCast, ← ten_zpow_add, hexponent]
    exact hpoint
  have hc : c ≠ 0 := by
    rintro rfl
    rw [Nat.cast_zero, zero_mul, zero_sub, abs_neg, abs_of_nonneg (value_nonneg _ _)] at hnear
    linarith
  refine ofDecimal_of_round_ten (by omega) ?_ hpos hfinite
  refine round_eq_of_near (by decide) (Nat.mul_ne_zero hc (Nat.pow_pos (by decide)).ne')
    (Nat.pow_pos (by decide)).ne' hfinite ?_
  rw [natCast_div_ten_pow]
  calc 2 * |(c : ℚ) * 10 ^ e - binary64.value magnitude| ≤ 10 ^ e := hnear
    _ < 1 / 2 ^ 53 * (10 ^ 16 * 10 ^ e) := by
        rw [← mul_assoc]
        exact lt_mul_of_one_lt_left hgrid (by norm_num)
    _ ≤ binary64.roundoff * binary64.value magnitude := by
        rw [roundoff_binary64]
        exact mul_le_mul_of_nonneg_left hunits (by norm_num)

/-- What is found on the grid of `k` digits has so many, or it is the power of ten behind them. -/
theorem le_of_onGrid? {f : Format} {tie : Tie} {num den m k : Nat} (hnum : num ≠ 0) (hden : den ≠ 0)
    (h : f.onGrid? tie magnitude num den (decimalPoint num den - k) = some m) : m ≤ 10 ^ k := by
  generalize he : decimalPoint num den - (k : Int) = e at h
  have hd : 0 < den * 10 ^ e.toNat := Nat.mul_pos (Nat.pos_of_ne_zero hden) (Nat.pow_pos (by decide))
  -- the quotient has `k` digits, and rounding it up adds one to it at most
  have hbelow : num * 10 ^ (-e).toNat / (den * 10 ^ e.toNat) < 10 ^ k := by
    have hquotient := natCast_div_mul_pow 10 num den e
    have hupper := (decimalPoint_spec hnum hden).2
    rw [Nat.cast_ofNat] at hquotient
    rw [Nat.div_lt_iff_lt_mul hd]
    have hlt : ((num * 10 ^ (-e).toNat : Nat) : ℚ) / (den * 10 ^ e.toNat : Nat) < (10 ^ k : Nat) := by
      rw [hquotient, div_lt_iff₀ (ten_zpow_pos e), Nat.cast_pow, Nat.cast_ofNat, ← zpow_natCast, ← ten_zpow_add,
        show (k : Int) + e = decimalPoint num den by omega]
      exact hupper
    rw [div_lt_iff₀ (Nat.cast_pos.2 hd)] at hlt
    exact_mod_cast hlt
  rcases (onGrid?_eq_some h).1 with rfl | rfl
  · exact Nat.le_of_lt hbelow
  · exact hbelow

/-- **Seventeen digits suffice**: the shortest decimal that reads back has no more. -/
theorem length_digits_shortest_le (tie : Tie) (hpos : 0 < magnitude) (hfinite : magnitude < binary64.infinity) :
    (binary64.shortest tie magnitude).digits.length ≤ 17 := by
  have hnum := ratio_fst_ne_zero (f := binary64) (by decide) hpos
  have hden := ratio_snd_ne_zero binary64 magnitude
  unfold shortest
  simp only
  generalize hsearch : (List.range 17).findSome? _ = found
  cases found with
  | none =>
    -- the last grid has a hit
    have hmiss := Option.map_eq_none_iff.1 (List.findSome?_eq_none_iff.1 hsearch 16 (by decide))
    have hhit := isSome_onGrid? tie (ofDecimal_divNearest_seventeen hpos hfinite rfl)
    have hnone := congrArg Option.isSome hmiss
    exact absurd (hhit.symm.trans hnone) Bool.noConfusion
  | some s =>
    obtain ⟨i, hi, hsome⟩ := List.exists_of_findSome?_eq_some hsearch
    obtain ⟨m, hm, rfl⟩ := Option.map_eq_some_iff.1 hsome
    have hlength := length_digits_ofSignificand_le (Nat.succ_pos i) (le_of_onGrid? hnum hden hm)
      (decimalPoint (binary64.ratio magnitude).1 (binary64.ratio magnitude).2 - (i + 1 : Nat))
    have := List.mem_range.1 hi
    exact Nat.le_trans hlength this

end Format

/-! ## Numerals -/

namespace Scientific

theorem significand_withExponent (negative : Bool) (s : Scientific) :
    (s.withExponent negative).significand = ofDigits s.digits := by
  rw [Numeral.significand_eq]
  exact ofDigits_take_drop s.digits 1

/-- Without an exponent no more digits are written than there are, or than stand up to one place behind the point. -/
theorem significand_positional_lt (wholeMark negative : Bool) (s : Scientific) :
    (s.positional wholeMark negative).significand < 10 ^ max s.digits.length (s.point.toNat + 1) := by
  have hdigits : ofDigits s.digits < 10 ^ max s.digits.length (s.point.toNat + 1) :=
    Nat.lt_of_lt_of_le (ofDigits_lt s.digits) (Nat.pow_le_pow_right (by decide) (Nat.le_max_left _ _))
  rw [Numeral.significand_eq]
  unfold positional
  simp only
  split
  · simp only [Nat.zero_mul, Nat.zero_add, ofDigits_append, ofDigits_replicate_zero]
    exact hdigits
  · split
    · -- zeros fill the digits up to the point
      rename_i hlength
      have hfilled : ofDigits s.digits * 10 ^ (s.point.toNat - s.digits.length) < 10 ^ s.point.toNat :=
        calc ofDigits s.digits * 10 ^ (s.point.toNat - s.digits.length)
            < 10 ^ s.digits.length * 10 ^ (s.point.toNat - s.digits.length) :=
              Nat.mul_lt_mul_of_pos_right (ofDigits_lt s.digits) (Nat.pow_pos (by decide))
          _ = 10 ^ s.point.toNat := by rw [← Nat.pow_add, Nat.add_sub_cancel' hlength]
      have hmark : 10 ^ s.point.toNat * 10 ≤ 10 ^ max s.digits.length (s.point.toNat + 1) := by
        rw [← Nat.pow_succ]
        exact Nat.pow_le_pow_right (by decide) (Nat.le_max_right _ _)
      cases wholeMark with
      | false =>
        simp only [Bool.false_eq_true, if_false, List.length_nil, Nat.pow_zero, Nat.mul_one]
        show ofDigits s.digits * 10 ^ (s.point.toNat - s.digits.length) + 0 < _
        omega
      | true =>
        simp only [if_true, List.length_singleton, Nat.pow_one]
        show ofDigits s.digits * 10 ^ (s.point.toNat - s.digits.length) * 10 + 0 < _
        omega
    · rw [ofDigits_take_drop]
      exact hdigits

/-- A whole number that is marked has a digit behind the point, and so has every other one. -/
theorem fraction_positional_ne_nil (negative : Bool) {s : Scientific} (h : s.digits ≠ []) :
    (s.positional true negative).fraction ≠ [] := by
  unfold positional
  simp only
  split
  · exact List.append_ne_nil_of_right_ne_nil _ h
  · split
    · exact List.cons_ne_nil _ _
    · rename_i hlength
      rw [ne_eq, List.drop_eq_nil_iff]
      exact hlength

end Scientific
end TableForest
