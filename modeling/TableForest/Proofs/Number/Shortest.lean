import Mathlib.Data.List.Induction
import TableForest.Number.Shortest
import TableForest.Proofs.Number.Decimal
import TableForest.Proofs.Number.Round

/-!
# Shortest decimals are read back

The shortest decimal of a number of 64 bits reads back as the number, on whatever grid it was found.

## The architecture

* **`Scientific.exists_ofSignificand`**: a decimal only drops zeros at the end of its significand.
* **`round_of_ofDecimal`** and **`ofDecimal_of_round`** take the shortcuts for extreme exponents away:
  decimals of positive finite numbers never meet them.
* **`exists_shortest`** puts both together.
-/

namespace TableForest

/-! ## Digits -/

namespace Decimal

/-- Digits without the zeros at their end, and the zeros. -/
theorem exists_trailing_zeros (ds : List Digit) :
    ∃ k, ds = (ds.reverse.dropWhile (· == 0)).reverse ++ List.replicate k 0 := by
  refine ⟨(ds.reverse.takeWhile (· == 0)).length, ?_⟩
  have hzeros : ds.reverse.takeWhile (· == 0) =
      List.replicate (ds.reverse.takeWhile (· == 0)).length 0 := by
    refine List.eq_replicate_iff.2 ⟨rfl, fun d hd => ?_⟩
    exact eq_of_beq (List.all_eq_true.1 List.all_takeWhile d hd)
  have hsplit := List.takeWhile_append_dropWhile (p := (· == 0)) (l := ds.reverse)
  calc ds = ds.reverse.reverse := (List.reverse_reverse ds).symm
    _ = (ds.reverse.takeWhile (· == 0) ++ ds.reverse.dropWhile (· == 0)).reverse := by rw [hsplit]
    _ = _ := by rw [List.reverse_append, hzeros, List.reverse_replicate, List.length_replicate]

end Decimal

/-! ## Decimals -/

namespace Scientific

/-- Dropping zeros moves the exponent only. -/
theorem exists_ofSignificand (m : Nat) (e : Int) :
    ∃ k : Nat, m = Decimal.ofDigits (ofSignificand m e).digits * 10 ^ k ∧
      (ofSignificand m e).point = (ofSignificand m e).digits.length + k + e := by
  obtain ⟨k, hk⟩ := Decimal.exists_trailing_zeros (Decimal.digits m)
  refine ⟨k, ?_, ?_⟩
  · show m = Decimal.ofDigits ((Decimal.digits m).reverse.dropWhile (· == 0)).reverse * 10 ^ k
    have hvalue := congrArg Decimal.ofDigits hk
    rw [Decimal.ofDigits_digits, Decimal.ofDigits_append, Decimal.ofDigits_replicate_zero,
      List.length_replicate, Nat.add_zero] at hvalue
    exact hvalue
  · show ((Decimal.digits m).length : Int) + e = _
    have hlength := congrArg List.length hk
    rw [List.length_append, List.length_replicate] at hlength
    rw [hlength, Int.natCast_add]
    rfl

/-- What is written behind the point reaches no further than the exponent. -/
theorem length_sub_point_ofSignificand (m : Nat) (e : Int) :
    ((ofSignificand m e).digits.length : Int) - (ofSignificand m e).point ≤ -e := by
  obtain ⟨k, -, hpoint⟩ := exists_ofSignificand m e
  omega

end Scientific

/-! ## Extreme exponents -/

namespace Format

variable {significand magnitude : Nat} {exponent : Int}

/-- A decimal that reads as a positive finite magnitude takes no shortcut. -/
theorem round_of_ofDecimal {f : Format} (h : f.ofDecimal significand exponent = magnitude)
    (hpos : 0 < magnitude) (hfinite : magnitude < f.infinity) :
    f.round (significand * 10 ^ exponent.toNat) (10 ^ (-exponent).toNat) = magnitude := by
  unfold ofDecimal at h
  split at h
  · omega
  · simp only at h
    split at h
    · omega
    · split at h
      · omega
      · exact h

/-- A decimal whose value rounds to a positive finite magnitude reads as this magnitude, if it has not
thousands of digits behind the point. -/
theorem ofDecimal_of_round {places : Nat} (hplaces : places ≤ 4000)
    (h : binary64.round significand (10 ^ places) = magnitude) (hpos : 0 < magnitude)
    (hfinite : magnitude < binary64.infinity) :
    binary64.ofDecimal significand (-(places : Int)) = magnitude := by
  have hden : (10 : Nat) ^ places ≠ 0 := Nat.pos_iff_ne_zero.1 (Nat.pow_pos (by decide))
  -- What rounds to a positive finite magnitude is neither too great nor too small, and the shortcuts
  -- compare only logarithms with the exponent.
  have hlt : significand < 2 ^ 1026 * 10 ^ places :=
    lt_of_round_lt_infinity (f := binary64) (by decide) hden (by omega) (by decide)
  have hle : 10 ^ places ≤ 2 ^ 1075 * significand :=
    le_of_round_pos (f := binary64) (by decide) hden (by omega) (by decide)
  have hne : significand ≠ 0 := by
    rintro rfl
    exact hpos.ne' h.symm
  have hlow : 2 ^ significand.log2 ≤ significand := Nat.log2_self_le hne
  have hhigh : significand < 2 ^ (significand.log2 + 1) := Nat.lt_log2_self
  generalize hk : significand.log2 = k at hlow hhigh
  -- ten lies between the tenth root of `2 ^ 33` and the third root of `2 ^ 10`
  have habove : k < 1026 + 10 * (places / 3 + 1) := by
    refine (Nat.pow_lt_pow_iff_right (a := 2) (by decide)).1 ?_
    calc 2 ^ k ≤ significand := hlow
      _ < 2 ^ 1026 * 10 ^ places := hlt
      _ ≤ 2 ^ 1026 * 10 ^ (3 * (places / 3 + 1)) :=
          Nat.mul_le_mul_left _ (Nat.pow_le_pow_right (by decide) (by omega))
      _ = 2 ^ 1026 * (10 ^ 3) ^ (places / 3 + 1) := by rw [Nat.pow_mul]
      _ ≤ 2 ^ 1026 * (2 ^ 10) ^ (places / 3 + 1) :=
          Nat.mul_le_mul_left _ (Nat.pow_le_pow_left (by decide) _)
      _ = 2 ^ (1026 + 10 * (places / 3 + 1)) := by rw [← Nat.pow_mul, ← Nat.pow_add]
  have hbelow : 33 * (places / 10) ≤ 1076 + k := by
    refine (Nat.pow_le_pow_iff_right (a := 2) (by decide)).1 ?_
    calc 2 ^ (33 * (places / 10)) = (2 ^ 33) ^ (places / 10) := by rw [Nat.pow_mul]
      _ ≤ (10 ^ 10) ^ (places / 10) := Nat.pow_le_pow_left (by decide) _
      _ = 10 ^ (10 * (places / 10)) := by rw [Nat.pow_mul]
      _ ≤ 10 ^ places := Nat.pow_le_pow_right (by decide) (by omega)
      _ ≤ 2 ^ 1075 * significand := hle
      _ ≤ 2 ^ 1075 * 2 ^ (k + 1) := Nat.mul_le_mul_left _ (Nat.le_of_lt hhigh)
      _ = 2 ^ (1076 + k) := by
          rw [← Nat.pow_add]
          congr 1
          omega
  unfold ofDecimal
  rw [if_neg hne, hk]
  simp only
  rw [if_neg (by omega), if_neg (by omega), Int.neg_neg, Int.toNat_natCast,
    show (-(places : Int)).toNat = 0 by omega]
  show binary64.round (significand * 1) (10 ^ places) = magnitude
  rw [Nat.mul_one]
  exact h

/-! ## The shortest decimal -/

/-- What is found on a grid is one of the two neighbours, and it reads back. -/
theorem onGrid?_eq_some {f : Format} {tie : Tie} {num den m : Nat}
    (h : f.onGrid? tie magnitude num den exponent = some m) :
    (m = num * 10 ^ (-exponent).toNat / (den * 10 ^ exponent.toNat) ∨
      m = num * 10 ^ (-exponent).toNat / (den * 10 ^ exponent.toNat) + 1) ∧
      f.ofDecimal m exponent = magnitude := by
  unfold onGrid? at h
  simp only at h
  split at h
  · cases h
  · rename_i hbelow _
    cases h
    exact ⟨.inl rfl, eq_of_beq hbelow⟩
  · rename_i _ habove
    cases h
    exact ⟨.inr rfl, eq_of_beq habove⟩
  · rename_i hbelow habove
    -- Whatever decides between two numbers that both read back, it takes one of them.
    have hboth : m = num * 10 ^ (-exponent).toNat / (den * 10 ^ exponent.toNat) ∨
        m = num * 10 ^ (-exponent).toNat / (den * 10 ^ exponent.toNat) + 1 := by
      split at h
      · exact .inl (Option.some.inj h).symm
      · split at h
        · exact .inr (Option.some.inj h).symm
        · cases tie with
          | up => exact .inr (Option.some.inj h).symm
          | even =>
            have hm := (Option.some.inj h).symm
            split at hm
            · exact .inl hm
            · exact .inr hm
    refine ⟨hboth, ?_⟩
    rcases hboth with rfl | rfl
    · exact eq_of_beq hbelow
    · exact eq_of_beq habove

/-- The point of a fraction is no further left than its denominator is long. -/
theorem le_decimalPoint (num : Nat) {den k : Nat} (hk : 0 < k) (h : den ≤ 2 ^ k) :
    1 - (k : Int) ≤ decimalPoint num den := by
  unfold decimalPoint
  split
  · omega
  · rename_i hlt
    have hten : 2 ^ k ≤ 10 ^ k := Nat.pow_le_pow_left (by decide) k
    have hquotient : (den - 1) / num < 10 ^ k :=
      Nat.lt_of_le_of_lt (Nat.div_le_self _ _) (by omega)
    have := Decimal.length_digits_le hk hquotient
    omega

theorem minExponent_le_parts (f : Format) (magnitude : Nat) :
    f.minExponent ≤ (f.parts magnitude).2 := by
  unfold parts
  simp only
  split
  · exact Int.le_refl _
  · generalize magnitude / f.binade = field at *
    omega

theorem ratio_snd_le (f : Format) (magnitude : Nat) :
    (f.ratio magnitude).2 ≤ 2 ^ (-f.minExponent).toNat := by
  have := minExponent_le_parts f magnitude
  show 2 ^ (-(f.parts magnitude).2).toNat ≤ 2 ^ (-f.minExponent).toNat
  exact Nat.pow_le_pow_right (by decide) (by omega)

theorem exactDecimal_value (f : Format) (magnitude : Nat) :
    (f.exactDecimal magnitude).1 * 10 ^ (f.exactDecimal magnitude).2.toNat * (f.ratio magnitude).2 =
      (f.ratio magnitude).1 * 10 ^ (-(f.exactDecimal magnitude).2).toNat := by
  unfold exactDecimal ratio
  generalize f.parts magnitude = parts
  obtain ⟨m, e⟩ := parts
  show m * 2 ^ e.toNat * 5 ^ (-e).toNat * 10 ^ (min e 0).toNat * 2 ^ (-e).toNat =
    m * 2 ^ e.toNat * 10 ^ (-min e 0).toNat
  rw [show (min e 0).toNat = 0 by omega, show (-min e 0).toNat = (-e).toNat by omega, Nat.pow_zero, Nat.mul_one,
    show (10 : Nat) = 5 * 2 from rfl, Nat.mul_pow]
  ring

/-- **The shortest decimal reads back.**  It is the decimal of a significand and an exponent that round to the
number, and the exponent is not extreme. -/
theorem exists_shortest (tie : Tie) (hpos : 0 < magnitude) (hfinite : magnitude < binary64.infinity) :
    ∃ m e, binary64.shortest tie magnitude = .ofSignificand m e ∧ -1100 ≤ e ∧
      binary64.round (m * 10 ^ e.toNat) (10 ^ (-e).toNat) = magnitude := by
  have hratio := round_ratio (f := binary64) (by decide) hpos hfinite
  have hexponent : -1074 ≤ (binary64.parts magnitude).2 := minExponent_le_parts binary64 magnitude
  unfold shortest
  simp only
  -- Seventeen grids are tried before the exact expansion is taken.
  cases hfound : (List.range 17).findSome? fun i =>
      (binary64.onGrid? tie magnitude (binary64.ratio magnitude).1 (binary64.ratio magnitude).2
        (decimalPoint (binary64.ratio magnitude).1 (binary64.ratio magnitude).2 - (i + 1 : Nat))).map
        fun m => Scientific.ofSignificand m
          (decimalPoint (binary64.ratio magnitude).1 (binary64.ratio magnitude).2 - (i + 1 : Nat)) with
  | none =>
    refine ⟨_, _, rfl, ?_, ?_⟩
    · show -1100 ≤ min (binary64.parts magnitude).2 0
      omega
    · rw [← round_congr (by decide) _ _ (exactDecimal_value binary64 magnitude).symm]
      · exact hratio
      · exact Nat.pos_iff_ne_zero.1 (Nat.two_pow_pos _)
      · exact Nat.pos_iff_ne_zero.1 (Nat.pow_pos (by decide))
  | some s =>
    obtain ⟨i, hi, hsome⟩ := List.exists_of_findSome?_eq_some hfound
    obtain ⟨m, hm, rfl⟩ := Option.map_eq_some_iff.1 hsome
    refine ⟨m, _, rfl, ?_, round_of_ofDecimal (onGrid?_eq_some hm).2 hpos hfinite⟩
    -- The point of the least magnitude bounds the exponent, on whichever grid.
    have hleast : (-binary64.minExponent).toNat = 1074 := by decide
    have hpoint := le_decimalPoint (binary64.ratio magnitude).1 (by omega)
      (ratio_snd_le binary64 magnitude)
    have := List.mem_range.1 hi
    omega

end Format
end TableForest
