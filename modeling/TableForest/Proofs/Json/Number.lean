import TableForest.Proofs.Json.Scale

/-!
# Numbers read from JSON

JSON writes a finite number with seventeen digits at most.  All of them are read, and the numeral is scaled by its
power of ten, so the number that comes back is a few steps away at most.

## The architecture

* **`Numeral.condensed_of_lt`**: a significand of sixty-four bits is read in full.
* **`Numeral.Marked`** is what all numerals of finite numbers have in common, and **`Binary.marked_numeral`** says so.
* **`Binary.exists_magnitude?_numeral`** reads them, and **`Binary.amount?_numeral`** adds the sign.
-/

namespace TableForest

open Decimal

/-! ## Numerals -/

namespace Numeral

/-- Digits are appended as long as the number they make fits. -/
theorem absorb_of_lt {m : Nat} {ds : List Digit} (h : m * 10 ^ ds.length + ofDigits ds < UInt64.size) :
    absorb m ds = (m * 10 ^ ds.length + ofDigits ds, []) := by
  induction ds generalizing m with
  | nil => simp [absorb, ofDigits]
  | cons d ds ih =>
    have hsplit : m * 10 ^ (d :: ds).length + ofDigits (d :: ds) = (10 * m + d.val) * 10 ^ ds.length + ofDigits ds := by
      have hcons : ofDigits ([d] ++ ds) = ofDigits [d] * 10 ^ ds.length + ofDigits ds := ofDigits_append [d] ds
      have hone : ofDigits [d] = d.val := by simp [ofDigits]
      rw [List.singleton_append, hone] at hcons
      rw [hcons, List.length_cons, Nat.pow_succ]
      ring
    rw [hsplit] at h ⊢
    have hle : 10 * m + d.val ≤ (10 * m + d.val) * 10 ^ ds.length :=
      Nat.le_mul_of_pos_right _ (Nat.pow_pos (by decide))
    unfold absorb
    rw [if_pos (by omega), ih h]

/-- **A significand of sixty-four bits is read in full.** -/
theorem condensed_of_lt {n : Numeral} (h : n.significand < UInt64.size) :
    n.condensed = (n.significand, -(n.fraction.length : Int)) := by
  rw [significand_eq] at h ⊢
  have hwhole : absorb 0 (digits n.whole) = (n.whole, []) := by
    have hle : n.whole ≤ n.whole * 10 ^ n.fraction.length := Nat.le_mul_of_pos_right _ (Nat.pow_pos (by decide))
    have hvalue : 0 * 10 ^ (digits n.whole).length + ofDigits (digits n.whole) = n.whole := by
      rw [ofDigits_digits, Nat.zero_mul, Nat.zero_add]
    rw [absorb_of_lt (by omega), hvalue]
  unfold condensed
  rw [hwhole]
  simp only [absorb_of_lt h, List.length_nil, Nat.sub_zero]
  simp

/-- What is read in full is scaled by the power of ten that its last digit counts. -/
theorem magnitude?_of_lt {n : Numeral} (h : n.significand < UInt64.size) (hlow : -maxExponent ≤ n.exponent.getD 0)
    (hhigh : n.exponent.getD 0 ≤ maxExponent) :
    n.magnitude? = Format.binary64.scale? (Format.binary64.round n.significand 1) n.scale := by
  unfold magnitude?
  rw [condensed_of_lt h]
  simp only
  rw [if_neg (by omega), if_neg (by omega)]
  congr 1
  unfold scale
  omega

theorem integer?_eq_none {n : Numeral} (h : n.fraction ≠ [] ∨ n.exponent ≠ none) : n.integer? = none := by
  unfold integer?
  rw [if_neg]
  rintro ⟨hfraction, hexponent⟩
  rcases h with h | h
  · exact h hfraction
  · exact h hexponent

/-- The digits of a numeral and its power of ten are numbers of the format, so that nothing is lost in reading it. -/
def Short (n : Numeral) : Prop :=
  n.significand ≤ 2 ^ 53 ∧ -22 ≤ n.scale ∧ n.scale ≤ 22

/-- A numeral of seventeen digits at most, few of them behind the point, that is none of an integer. -/
structure Marked (n : Numeral) : Prop where
  significand : n.significand < 10 ^ 17
  places : n.fraction.length ≤ 21
  integer : n.integer? = none

end Numeral

/-! ## What JSON writes -/

theorem Format.digits_shortest_ne_nil {magnitude : Nat} (tie : Tie) (hpos : 0 < magnitude)
    (hfinite : magnitude < binary64.infinity) : (binary64.shortest tie magnitude).digits ≠ [] := by
  obtain ⟨m, e, hshortest, -, hround⟩ := exists_shortest tie hpos hfinite
  obtain ⟨k, hm, -⟩ := Scientific.exists_ofSignificand m e
  rw [hshortest]
  intro hnil
  have hzero : m = 0 := by
    rw [hm, hnil]
    exact Nat.zero_mul _
  rw [hzero, Nat.zero_mul, round, if_pos rfl] at hround
  omega

section Layout

variable (negative : Bool) {s : Scientific} (hdigits : s.digits ≠ []) (hlength : s.digits.length ≤ 17)

include hdigits hlength

theorem Scientific.marked_positional (hlow : -4 ≤ s.point) (hhigh : s.point ≤ 16) :
    (s.positional true negative).Marked where
  significand := by
    refine Nat.lt_of_lt_of_le (significand_positional_lt true negative s) ?_
    exact Nat.pow_le_pow_right (by decide) (by omega)
  places := by
    unfold positional
    simp only
    split
    · rw [List.length_append, List.length_replicate]
      omega
    · split
      · exact (by decide : 1 ≤ 21)
      · rw [List.length_drop]
        omega
  integer := Numeral.integer?_eq_none (.inl (fraction_positional_ne_nil negative hdigits))

omit hdigits in
theorem Scientific.marked_withExponent : (s.withExponent negative).Marked where
  significand := by
    rw [significand_withExponent]
    exact Nat.lt_of_lt_of_le (ofDigits_lt _) (Nat.pow_le_pow_right (by decide) hlength)
  places := by
    show (s.digits.drop 1).length ≤ 21
    rw [List.length_drop]
    omega
  integer := Numeral.integer?_eq_none (.inr (Option.some_ne_none _))

theorem NumberLayout.marked_arrange : (jsonNumber.arrange negative s).Marked := by
  show (if -4 ≤ s.point ∧ s.point ≤ 16 then s.positional true negative else s.withExponent negative).Marked
  split
  · rename_i hpoint
    exact Scientific.marked_positional negative hdigits hlength hpoint.1 hpoint.2
  · exact Scientific.marked_withExponent negative hlength

end Layout

namespace Binary

variable {x : Binary64}

theorem numeral_jsonNumber_of_zero (hzero : x.magnitude = 0) :
    x.numeral jsonNumber = ⟨x.negative, 0, [zeroDigit], none⟩ :=
  numeral_of_zero jsonNumber hzero

/-- **What JSON writes of a finite number** has seventeen digits at most, and it is no numeral of an integer. -/
theorem marked_numeral (h : x.isFinite = true) : (x.numeral jsonNumber).Marked := by
  by_cases hzero : x.magnitude = 0
  · rw [numeral_jsonNumber_of_zero hzero]
    refine ⟨?_, ?_, Numeral.integer?_eq_none (.inl (List.cons_ne_nil _ _))⟩
    · rw [Numeral.significand_eq]
      exact (by decide : 0 * 10 ^ 1 + ofDigits [zeroDigit] < 10 ^ 17)
    · exact (by decide : 1 ≤ 21)
  · have hpos := Nat.pos_of_ne_zero hzero
    have hfinite : x.magnitude < Format.binary64.infinity := of_decide_eq_true h
    unfold numeral
    rw [if_neg hzero]
    exact NumberLayout.marked_arrange x.negative (Format.digits_shortest_ne_nil _ hpos hfinite)
      (Format.length_digits_shortest_le _ hpos hfinite)

theorem significand_numeral_pos (hpos : 0 < x.magnitude) (h : x.isFinite = true) :
    0 < (x.numeral jsonNumber).significand := by
  obtain ⟨-, -, hround⟩ := round_numeral jsonNumber hpos h
  refine Nat.pos_of_ne_zero fun hnone => ?_
  rw [hnone, Nat.zero_mul, Format.round, if_pos rfl] at hround
  omega

/-- The numeral of a positive finite number is read in full and scaled. -/
theorem magnitude?_numeral (hpos : 0 < x.magnitude) (h : x.isFinite = true) :
    (x.numeral jsonNumber).magnitude? = Format.binary64.scale?
      (Format.binary64.round (x.numeral jsonNumber).significand 1) (x.numeral jsonNumber).scale := by
  have hmarked := marked_numeral h
  have hplaces := hmarked.places
  have hlt : (x.numeral jsonNumber).significand < UInt64.size := Nat.lt_trans hmarked.significand (by decide)
  obtain ⟨-, -, hround⟩ := round_numeral jsonNumber hpos h
  have hsignificand := significand_numeral_pos hpos h
  have hlow := Format.le_scale_of_pos hlt hround hpos
  have hhigh := Format.scale_le_of_lt_infinity hsignificand hround (of_decide_eq_true h)
  have hscale : (x.numeral jsonNumber).scale =
      (x.numeral jsonNumber).exponent.getD 0 - (x.numeral jsonNumber).fraction.length := rfl
  have hmax : Numeral.maxExponent = 2147483647 := rfl
  exact Numeral.magnitude?_of_lt hlt (by omega) (by omega)

/-- The greatest number is read from what JSON writes of it. -/
theorem magnitude?_numeral_max (hx : x.magnitude = Format.binary64.infinity - 1) :
    (x.numeral jsonNumber).magnitude? = some x.magnitude := by
  have hread : ∀ negative, (jsonNumber.arrange negative
      ⟨[1, 7, 9, 7, 6, 9, 3, 1, 3, 4, 8, 6, 2, 3, 1, 5, 7], 309⟩).magnitude? =
        some (Format.binary64.infinity - 1) := by
    decide +kernel
  have hne : x.magnitude ≠ 0 := by
    rw [hx]
    decide
  unfold numeral
  rw [if_neg hne, hx, show jsonNumber.tie = .even from rfl, Format.shortest_max, hread]

/-- **The reader finds a finite magnitude for every finite number that JSON writes**, a few steps away at most, and
the very magnitude if the numeral is short. -/
theorem exists_magnitude?_numeral (h : x.isFinite = true) :
    ∃ found, (x.numeral jsonNumber).magnitude? = some found ∧ found < Format.binary64.infinity ∧
      Format.Apart (Format.stepBound (x.numeral jsonNumber).scale) found x.magnitude ∧
      ((x.numeral jsonNumber).Short → found = x.magnitude) := by
  have hfinite : x.magnitude < Format.binary64.infinity := of_decide_eq_true h
  by_cases hzero : x.magnitude = 0
  · have hread : ∀ negative, Numeral.magnitude? ⟨negative, 0, [zeroDigit], none⟩ = some 0 := by decide +kernel
    refine ⟨0, ?_, by omega, ⟨by omega, by omega⟩, fun _ => hzero.symm⟩
    rw [numeral_jsonNumber_of_zero hzero, hread]
  · have hpos := Nat.pos_of_ne_zero hzero
    have hmarked := marked_numeral h
    have hread := magnitude?_numeral hpos h
    obtain ⟨-, -, hround⟩ := round_numeral jsonNumber hpos h
    by_cases hshort : (x.numeral jsonNumber).Short
    · -- nothing is lost
      have hexact := Format.scale?_of_holds hshort.1 hshort.2.1 hshort.2.2 hround hfinite
      exact ⟨_, hread.trans hexact, hfinite, .refl _ _, fun _ => rfl⟩
    · have hsignificand := significand_numeral_pos hpos h
      rcases Nat.lt_or_ge (x.magnitude + 1) Format.binary64.infinity with hbelow | hlast
      · obtain ⟨found, hfound, hfinite, hsteps⟩ := Format.scale?_of_round hsignificand hmarked.significand hround hpos
          hbelow
        exact ⟨found, hread.trans hfound, hfinite, hsteps, fun h => absurd h hshort⟩
      · exact ⟨_, magnitude?_numeral_max (by omega), hfinite, .refl _ _, fun _ => rfl⟩

/-- **A finite number is read from what JSON writes of it as a finite number of the same sign**, a few steps away at
most, and as itself if its numeral is short. -/
theorem amount?_numeral (h : x.isFinite = true) :
    ∃ y : Binary64, (x.numeral jsonNumber).amount? = some (.floating y) ∧ y.isFinite = true ∧
      y.negative = x.negative ∧
      Format.Apart (Format.stepBound (x.numeral jsonNumber).scale) y.magnitude x.magnitude ∧
      ((x.numeral jsonNumber).Short → y = x) := by
  obtain ⟨found, hfound, hfinite, hsteps, hshort⟩ := exists_magnitude?_numeral h
  have hnegative := (ofDecimal_numeral jsonNumber h).1
  have hinteger := (marked_numeral h).integer
  refine ⟨.ofMagnitude (x.numeral jsonNumber).negative found (Nat.le_of_lt hfinite), ?_, decide_eq_true hfinite,
    hnegative, hsteps, fun hs => ext_magnitude hnegative (hshort hs)⟩
  unfold Numeral.amount? Numeral.floating?
  rw [hinteger, hfound]
  simp only [Option.bind_some]
  rw [dif_pos (Nat.le_of_lt hfinite)]
  rfl

end Binary
end TableForest
