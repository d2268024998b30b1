import TableForest.Proofs.Number.Value

/-!
# Errors of rounding

A computation that rounds a few times gives a number that is a few relative errors away from the exact one.  Errors
add up along products and quotients, and in the end they are counted in steps between neighbours of the format.

## The architecture

* **`Format.Within`** counts relative errors in both directions; it is closed under products, inverses and chains.
* **`within_value_round`** is one rounding, **`within_value_round_small`** one just below the numbers with a leading
  bit.
* **`round_steps`**: what is within `k` errors of a number rounds to a magnitude within `k + 1` steps of what the
  number rounds to.
-/

namespace TableForest.Format

variable {f : Format} {num den magnitude j k : Nat} {a b c d : ℚ}

/-! ## Relative errors -/

/-- Two numbers differ by `k` relative errors of one rounding at most, in either direction. -/
structure Within (f : Format) (k : Nat) (a b : ℚ) : Prop where
  le : a ≤ b * (1 + f.roundoff) ^ k
  ge : b ≤ a * (1 + f.roundoff) ^ k

theorem one_le_growth (f : Format) (k : Nat) : 1 ≤ (1 + f.roundoff) ^ k :=
  one_le_pow₀ (by linarith [f.roundoff_pos])

theorem growth_pos (f : Format) (k : Nat) : 0 < (1 + f.roundoff) ^ k :=
  lt_of_lt_of_le one_pos (f.one_le_growth k)

namespace Within

theorem pos (h : f.Within k a b) (hb : 0 < b) : 0 < a := by
  have hscaled := lt_of_lt_of_le hb h.ge
  exact pos_of_mul_pos_left hscaled (le_of_lt (f.growth_pos k))

theorem trans (h : f.Within j a b) (h' : f.Within k b c) : f.Within (j + k) a c := by
  constructor
  · calc a ≤ b * (1 + f.roundoff) ^ j := h.le
      _ ≤ c * (1 + f.roundoff) ^ k * (1 + f.roundoff) ^ j :=
          mul_le_mul_of_nonneg_right h'.le (le_of_lt (f.growth_pos j))
      _ = c * (1 + f.roundoff) ^ (j + k) := by ring
  · calc c ≤ b * (1 + f.roundoff) ^ k := h'.ge
      _ ≤ a * (1 + f.roundoff) ^ j * (1 + f.roundoff) ^ k :=
          mul_le_mul_of_nonneg_right h.ge (le_of_lt (f.growth_pos k))
      _ = a * (1 + f.roundoff) ^ (j + k) := by ring

theorem mul (ha : 0 < a) (hb : 0 < b) (hc : 0 < c) (hd : 0 < d) (h : f.Within j a b) (h' : f.Within k c d) :
    f.Within (j + k) (a * c) (b * d) := by
  have hj := f.growth_pos j
  constructor
  · calc a * c ≤ b * (1 + f.roundoff) ^ j * (d * (1 + f.roundoff) ^ k) :=
          mul_le_mul h.le h'.le (le_of_lt hc) (le_of_lt (mul_pos hb hj))
      _ = b * d * (1 + f.roundoff) ^ (j + k) := by ring
  · calc b * d ≤ a * (1 + f.roundoff) ^ j * (c * (1 + f.roundoff) ^ k) :=
          mul_le_mul h.ge h'.ge (le_of_lt hd) (le_of_lt (mul_pos ha hj))
      _ = a * c * (1 + f.roundoff) ^ (j + k) := by ring

theorem inv (ha : 0 < a) (hb : 0 < b) (h : f.Within k a b) : f.Within k a⁻¹ b⁻¹ := by
  constructor
  · rw [inv_mul_eq_div, le_div_iff₀ hb, inv_mul_le_iff₀ ha]
    exact h.ge
  · rw [inv_mul_eq_div, le_div_iff₀ ha, inv_mul_le_iff₀ hb]
    exact h.le

theorem div (ha : 0 < a) (hb : 0 < b) (hc : 0 < c) (hd : 0 < d) (h : f.Within j a b) (h' : f.Within k c d) :
    f.Within (j + k) (a / c) (b / d) := by
  rw [div_eq_mul_inv, div_eq_mul_inv]
  exact h.mul ha hb (inv_pos.2 hc) (inv_pos.2 hd) (h'.inv hc hd)

end Within

/-! ## One rounding -/

theorem least_normal_pos (f : Format) : (0 : ℚ) < f.binade * 2 ^ f.minExponent :=
  mul_pos f.natCast_binade_pos (two_zpow_pos _)

/-- **One rounding is one relative error**, for what is not below the least number with a leading bit. -/
theorem within_value_round (hp : 0 < f.precision) (hden : den ≠ 0) (hfinite : f.round num den < f.infinity)
    (h : f.binade * 2 ^ f.minExponent ≤ (num : ℚ) / den) : f.Within 1 (f.value (f.round num den)) (num / den) := by
  have hnum := ne_zero_of_div_pos (lt_of_lt_of_le f.least_normal_pos h)
  have herror := abs_value_nearest_sub_le_mul (f := f) hp hnum hden (le_refl 1) (by rwa [one_mul])
  have herror' := abs_value_nearest_sub_le_mul_value (f := f) hp hnum hden h
  rw [← round_eq_nearest hnum hfinite] at herror herror'
  constructor
  · have := (abs_le.1 herror).2
    linarith
  · have := (abs_le.1 herror').1
    linarith

theorem roundoff_le (hp : 3 < f.precision) : f.roundoff ≤ 1 / 16 := by
  have hpow : 2 ^ 3 ≤ f.binade := Nat.pow_le_pow_right (by decide) (by omega)
  have hbinade : (8 : ℚ) ≤ f.binade := by exact_mod_cast hpow
  exact one_div_le_one_div_of_le (by norm_num) (by linarith)

/-- Just below the numbers with a leading bit a rounding counts as three errors. -/
theorem within_value_round_small (hp : 3 < f.precision) (hden : den ≠ 0) (hfinite : f.round num den < f.infinity)
    (h : f.binade * 2 ^ f.minExponent ≤ 5 / 2 * ((num : ℚ) / den)) :
    f.Within 3 (f.value (f.round num den)) (num / den) := by
  have hpos : (0 : ℚ) < num / den := by
    have := f.least_normal_pos
    linarith
  have hnum := ne_zero_of_div_pos hpos
  have herror := abs_value_nearest_sub_le_mul (f := f) (by omega) hnum hden (c := 5 / 2) (by norm_num) h
  rw [← round_eq_nearest hnum hfinite] at herror
  have hoff := f.roundoff_pos
  have hsmall := roundoff_le hp
  -- three errors leave room for the square of one
  have hcube : 1 + 3 * f.roundoff ≤ (1 + f.roundoff) ^ 3 := by
    have hrest : 0 ≤ 3 * f.roundoff ^ 2 + f.roundoff ^ 3 := by positivity
    calc 1 + 3 * f.roundoff ≤ 1 + 3 * f.roundoff + (3 * f.roundoff ^ 2 + f.roundoff ^ 3) := by linarith
      _ = (1 + f.roundoff) ^ 3 := by ring
  obtain ⟨hlow, hhigh⟩ := abs_le.1 herror
  generalize (num : ℚ) / den = q at hlow hhigh hpos ⊢
  generalize f.value (f.round num den) = r at hlow hhigh ⊢
  constructor
  · calc r ≤ q * (1 + 5 / 2 * f.roundoff) := by linarith
      _ ≤ q * (1 + 3 * f.roundoff) := mul_le_mul_of_nonneg_left (by linarith) (le_of_lt hpos)
      _ ≤ q * (1 + f.roundoff) ^ 3 := mul_le_mul_of_nonneg_left hcube (le_of_lt hpos)
  · have hsquare : 0 ≤ f.roundoff * (1 - 15 * f.roundoff) := mul_nonneg (le_of_lt hoff) (by linarith)
    calc q ≤ q * (1 + f.roundoff * (1 - 15 * f.roundoff) / 2) := le_mul_of_one_le_right (le_of_lt hpos) (by linarith)
      _ = q * (1 - 5 / 2 * f.roundoff) * (1 + 3 * f.roundoff) := by ring
      _ ≤ r * (1 + 3 * f.roundoff) := mul_le_mul_of_nonneg_right (by linarith) (by linarith)
      _ ≤ r * (1 + f.roundoff) ^ 3 := by
          refine mul_le_mul_of_nonneg_left hcube (le_trans ?_ (show q * (1 - 5 / 2 * f.roundoff) ≤ r by linarith))
          exact mul_nonneg (le_of_lt hpos) (by linarith)

/-! ## Steps -/

/-- What rounds to a magnitude lies between its neighbours. -/
theorem le_value_succ_of_round (hp : 0 < f.precision) (hden : den ≠ 0) (h : f.round num den = magnitude)
    (hfinite : magnitude < f.infinity) : (num : ℚ) / den ≤ f.value (magnitude + 1) := by
  refine not_lt.1 fun hlt => ?_
  have := le_round hp hden (le_of_lt hlt) hfinite
  omega

theorem value_pred_le_of_round (hp : 0 < f.precision) (hden : den ≠ 0) (h : f.round num den = magnitude + 1) :
    f.value magnitude ≤ (num : ℚ) / den := by
  refine not_lt.1 fun hlt => ?_
  have := round_le hp hden (le_of_lt hlt)
  omega

/-- Two magnitudes are `k` steps apart at most. -/
structure Apart (k : Nat) (x y : Nat) : Prop where
  le : x ≤ y + k
  ge : y ≤ x + k

instance (k x y : Nat) : Decidable (Apart k x y) :=
  decidable_of_iff (x ≤ y + k ∧ y ≤ x + k) ⟨fun h => ⟨h.1, h.2⟩, fun h => ⟨h.le, h.ge⟩⟩

theorem Apart.refl (k x : Nat) : Apart k x x :=
  ⟨Nat.le_add_right x k, Nat.le_add_right x k⟩

theorem Apart.mono {x y : Nat} (h : Apart j x y) (hle : j ≤ k) : Apart k x y :=
  ⟨Nat.le_trans h.le (Nat.add_le_add_left hle y), Nat.le_trans h.ge (Nat.add_le_add_left hle x)⟩

/-- **Errors become steps**: what is within `k` relative errors of a number rounds to a magnitude that is `k + 1`
steps at most from what the number rounds to. -/
theorem round_steps (hp : 0 < f.precision) {num' den' : Nat} (hden : den ≠ 0) (hden' : den' ≠ 0)
    (h : f.round num den = magnitude) (hfinite : magnitude < f.infinity)
    (hwithin : f.Within k (num' / den') (num / den)) : Apart (k + 1) (f.round num' den') magnitude := by
  constructor
  · apply round_le hp hden'
    -- from below by what rounding the exact number gives, and the error after it by steps
    calc (num' : ℚ) / den' ≤ num / den * (1 + f.roundoff) ^ k := hwithin.le
      _ ≤ f.value (magnitude + 1) * (1 + f.roundoff) ^ k :=
          mul_le_mul_of_nonneg_right (le_value_succ_of_round hp hden h hfinite) (le_of_lt (f.growth_pos k))
      _ ≤ f.value (magnitude + 1 + k) := value_mul_pow_le hp _ _
      _ = f.value (magnitude + (k + 1)) := by rw [Nat.add_assoc, Nat.add_comm 1 k]
  · rcases Nat.lt_or_ge k magnitude with hlt | hge
    -- so close to zero the steps below are more than there are numbers
    · obtain ⟨low, rfl⟩ : ∃ low, magnitude = low + k + 1 := ⟨magnitude - k - 1, by omega⟩
      have hle : low ≤ f.round num' den' := by
        refine le_round hp hden' ?_ (by omega)
        refine le_of_mul_le_mul_right ?_ (f.growth_pos k)
        calc f.value low * (1 + f.roundoff) ^ k ≤ f.value (low + k) := value_mul_pow_le hp _ _
          _ ≤ num / den := value_pred_le_of_round hp hden h
          _ ≤ num' / den' * (1 + f.roundoff) ^ k := hwithin.ge
      omega
    · omega

end TableForest.Format
