import TableForest.Proofs.Cell.Text

/-!
# Equal values and their hashes

Values are equal as numbers are, and a hash is made of bits.  The two comparisons part at one place: the zeros
are one number and have two signs.

## The architecture

* **`Value.hashData_inj`**: what a hash is made of tells everything about a value.
* **`Binary.same_iff`** and **`Value.same_iff`**: equal values are one datum, or they are the two zeros.
* **`Value.equal_with_other_hash_iff`** compares the two relations, over all pairs of values.
-/

namespace TableForest

/-! ## Equal numbers -/

theorem Binary.isNaN_zero {f : Format} (negative : Bool) : (Binary.zero negative : Binary f).isNaN = false := by
  show decide (f.infinity < 0) = false
  exact decide_eq_false (Nat.not_lt_zero _)

theorem Binary.eq_zero {f : Format} {x : Binary f} (h : x.magnitude = 0) : x = .zero x.negative := by
  apply Binary.ext_magnitude
  · rfl
  · exact h

/-- Equal numbers are one datum, which is no NaN, or both are zero. -/
theorem Binary.same_iff {f : Format} {x y : Binary f} :
    x.same y = true ↔ (x = y ∧ x.isNaN = false) ∨ ∃ a b, x = .zero a ∧ y = .zero b := by
  have hsplit : x.same y = true ↔
      x.isNaN = false ∧ y.isNaN = false ∧ (x = y ∨ (x.magnitude = 0 ∧ y.magnitude = 0)) := by
    unfold Binary.same
    simp only [Bool.and_eq_true, Bool.or_eq_true, Bool.not_eq_true', decide_eq_true_eq, and_assoc]
  rw [hsplit]
  constructor
  · rintro ⟨hx, -, rfl | ⟨hzero, hzero'⟩⟩
    · exact .inl ⟨rfl, hx⟩
    · exact .inr ⟨x.negative, y.negative, Binary.eq_zero hzero, Binary.eq_zero hzero'⟩
  · rintro (⟨rfl, hx⟩ | ⟨a, b, rfl, rfl⟩)
    · exact ⟨hx, hx, .inl rfl⟩
    · exact ⟨Binary.isNaN_zero a, Binary.isNaN_zero b, .inr ⟨rfl, rfl⟩⟩

namespace Value

/-! ## Equal values -/

/-- The zeros of the two signs, in either order. -/
inductive OppositeZeros : Value → Value → Prop
  | intro (negative : Bool) : OppositeZeros (numeric (.zero negative)) (numeric (.zero !negative))

/-- Two values are compared as data, unless both are numbers. -/
theorem same_cases {v w : Value} (h : v.same w = true) :
    v = w ∧ (∀ x, v ≠ numeric x) ∨ ∃ x y, v = numeric x ∧ w = numeric y ∧ x.same y = true := by
  unfold same at h
  split at h
  · exact .inr ⟨_, _, rfl, rfl, h⟩
  · rename_i hother
    obtain rfl := of_decide_eq_true h
    exact .inl ⟨rfl, fun x hx => hother x x hx hx⟩

/-- **Equal values** are one datum, which is no NaN, or they are the two zeros. -/
theorem same_iff {v w : Value} :
    v.same w = true ↔ (v = w ∧ ∀ x, v = numeric x → x.isNaN = false) ∨ OppositeZeros v w := by
  constructor
  · intro h
    rcases same_cases h with ⟨rfl, hother⟩ | ⟨x, y, rfl, rfl, hsame⟩
    · exact .inl ⟨rfl, fun x hx => absurd hx (hother x)⟩
    · rcases Binary.same_iff.1 hsame with ⟨rfl, hx⟩ | ⟨a, b, rfl, rfl⟩
      · exact .inl ⟨rfl, fun z hz => numeric.inj hz ▸ hx⟩
      · -- zeros of one sign are one datum
        by_cases hsigns : b = !a
        · subst hsigns
          exact .inr (.intro a)
        · obtain rfl : a = b := by
            cases a <;> cases b <;> simp_all
          exact .inl ⟨rfl, fun z hz => numeric.inj hz ▸ Binary.isNaN_zero a⟩
  · rintro (⟨rfl, hnumber⟩ | hzeros)
    · cases v with
      | numeric x => exact Binary.same_iff.2 (.inl ⟨rfl, hnumber x rfl⟩)
      | _ => exact decide_eq_true rfl
    · cases hzeros with
      | intro negative => exact Binary.same_iff.2 (.inr ⟨negative, !negative, rfl, rfl⟩)

/-! ## Hashes -/

/-- **What a hash is made of tells everything about a value.** -/
theorem hashData_inj {v w : Value} : v.hashData = w.hashData ↔ v = w := by
  constructor
  · intro h
    obtain ⟨hkind, hdata⟩ := Prod.mk.inj h
    cases v <;> cases w <;> cases hkind
    · rw [HashData.bool.inj hdata]
    · rw [HashData.int.inj hdata]
    · obtain ⟨hnegative, hmagnitude⟩ := HashData.bits.inj hdata
      rw [Binary.ext_magnitude hnegative hmagnitude]
    · rw [HashData.chars.inj hdata]
    · rw [HashData.chars.inj hdata]
  · rintro rfl
    rfl

/-- **Equal values have one hash, but for the two zeros**: these are equal and are hashed by different bits, and no
other pair of values is. -/
theorem equal_with_other_hash_iff (v w : Value) :
    (v.same w = true ∧ v.hashData ≠ w.hashData) ↔ OppositeZeros v w := by
  rw [same_iff, ne_eq, hashData_inj]
  constructor
  · rintro ⟨⟨rfl, -⟩ | hzeros, hne⟩
    · exact absurd rfl hne
    · exact hzeros
  · intro hzeros
    refine ⟨.inr hzeros, ?_⟩
    cases hzeros with
    | intro negative =>
      intro heq
      have hsign : negative = !negative := congrArg Binary.negative (numeric.inj heq)
      cases negative <;> cases hsign

/-- Zero and its negative are equal, and their hashes are made of different bits. -/
theorem zeros_hashed_apart :
    (numeric (.zero false)).same (numeric (.zero true)) = true ∧
      (numeric (.zero false)).hashData ≠ (numeric (.zero true)).hashData := by
  decide

end Value
end TableForest
