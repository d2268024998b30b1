import Mathlib.Data.List.Induction
import Mathlib.Data.List.TakeDrop
import Mathlib.Tactic.Ring
import TableForest.Number.Numeral

/-!
# Numerals are read back

What is written with decimal digits is read back from them, whatever follows that is no digit: natural
numbers, integers with their sign, and numerals with fraction and exponent.
-/

namespace TableForest

namespace Decimal

/-! ## Digits -/

theorem digits_ne_nil (n : Nat) : digits n ≠ [] := by
  rw [digits]
  split
  · exact List.cons_ne_nil _ _
  · exact List.append_ne_nil_of_right_ne_nil _ (List.cons_ne_nil _ _)

/-- Only zero is written with a zero in front. -/
theorem head?_digits {n : Nat} (h : (digits n).head? = some 0) : n = 0 := by
  induction n using Nat.strongRecOn with
  | _ n ih =>
    -- The digits of `n` end with `n % 10`, and a zero in front of that is in front of `n / 10`.
    rw [digits] at h
    split at h
    · rename_i hlt
      have hzero : Fin.ofNat 10 n = 0 := Option.some.inj h
      have hval : n % 10 = 0 := congrArg Fin.val hzero
      omega
    · rename_i hge
      rw [List.head?_append, List.head?_eq_some_head (digits_ne_nil _), Option.some_or,
        ← List.head?_eq_some_head] at h
      have := ih (n / 10) (by omega) h
      omega

theorem isDigit_digitChar (d : Digit) : isDigit (digitChar d) = true := by
  unfold isDigit
  rw [digit?_digitChar]
  rfl

theorem mapM_digit? (ds : List Digit) : (ds.map digitChar).mapM digit? = some ds := by
  induction ds with
  | nil => rfl
  | cons d rest ih =>
    rw [List.map_cons, List.mapM_cons, digit?_digitChar, ih]
    rfl

/-- A run of digits spells a number. -/
theorem readNat?_map_digitChar {ds : List Digit} (h : ds ≠ []) :
    readNat? (ds.map digitChar) = some (ofDigits ds) := by
  unfold readNat?
  rw [mapM_digit?, if_neg]
  · rfl
  · rw [List.isEmpty_iff, List.map_eq_nil_iff]
    exact h

theorem readNat?_natChars (n : Nat) : readNat? (natChars n) = some n := by
  unfold natChars
  rw [readNat?_map_digitChar (digits_ne_nil n), ofDigits_digits]

theorem ofDigits_append (ds es : List Digit) :
    ofDigits (ds ++ es) = ofDigits ds * 10 ^ es.length + ofDigits es := by
  induction es using List.reverseRecOn with
  | nil => simp [ofDigits]
  | append_singleton es e ih =>
    rw [← List.append_assoc, ofDigits_append_singleton, ih, ofDigits_append_singleton, List.length_append,
      List.length_singleton, Nat.pow_succ]
    ring

theorem ofDigits_take_drop (ds : List Digit) (k : Nat) :
    ofDigits (ds.take k) * 10 ^ (ds.drop k).length + ofDigits (ds.drop k) = ofDigits ds := by
  rw [← ofDigits_append, List.take_append_drop]

theorem ofDigits_lt (ds : List Digit) : ofDigits ds < 10 ^ ds.length := by
  induction ds using List.reverseRecOn with
  | nil => exact Nat.one_pos
  | append_singleton ds d ih =>
    rw [ofDigits_append_singleton, List.length_append, List.length_singleton, Nat.pow_succ]
    have := d.isLt
    omega

theorem lt_ten_pow_length_digits (n : Nat) : n < 10 ^ (digits n).length := by
  have hlt := ofDigits_lt (digits n)
  rwa [ofDigits_digits] at hlt

theorem ofDigits_replicate_zero (k : Nat) : ofDigits (List.replicate k 0) = 0 := by
  induction k with
  | zero => rfl
  | succ k ih =>
    rw [List.replicate_succ', ofDigits_append_singleton, ih]
    rfl

/-- A number below `10 ^ k` has at most `k` digits. -/
theorem length_digits_le {n k : Nat} (hk : 0 < k) (h : n < 10 ^ k) : (digits n).length ≤ k := by
  induction k generalizing n with
  | zero => omega
  | succ k ih =>
    rw [digits]
    split
    · simp
    · rename_i hge
      rw [Nat.pow_succ] at h
      have hk : 0 < k := by
        refine Nat.pos_of_ne_zero fun hzero => ?_
        rw [hzero] at h
        omega
      have hrest := ih (n := n / 10) hk (by omega)
      rw [List.length_append, List.length_singleton]
      omega

/-- The leading digit of a positive number is no zero. -/
theorem ten_pow_length_digits_le {n : Nat} (h : 0 < n) : 10 ^ ((digits n).length - 1) ≤ n := by
  refine Nat.not_lt.1 fun hlt => ?_
  by_cases hone : (digits n).length - 1 = 0
  · rw [hone, Nat.pow_zero] at hlt
    omega
  · have := length_digits_le (Nat.pos_of_ne_zero hone) hlt
    omega

/-! ## Padded numbers -/

/-- A padded number is a run of digits that spell it. -/
theorem exists_paddedChars (width n : Nat) :
    ∃ ds : List Digit, paddedChars width n = ds.map digitChar ∧ ds ≠ [] ∧ ofDigits ds = n := by
  refine ⟨List.replicate (width - (natChars n).length) 0 ++ digits n, ?_, ?_, ?_⟩
  · rw [List.map_append, List.map_replicate]
    rfl
  · exact List.append_ne_nil_of_right_ne_nil _ (digits_ne_nil n)
  · rw [ofDigits_append, ofDigits_replicate_zero, Nat.zero_mul, Nat.zero_add, ofDigits_digits]

/-- A number that needs no more places than there are is padded to exactly these. -/
theorem length_paddedChars {width n : Nat} (hwidth : 0 < width) (h : n < 10 ^ width) :
    (paddedChars width n).length = width := by
  have hlength : (natChars n).length = (digits n).length := List.length_map _
  have := length_digits_le hwidth h
  unfold paddedChars
  rw [List.length_append, List.length_replicate]
  omega

theorem paddedChars_ne_nil (width n : Nat) : paddedChars width n ≠ [] := by
  obtain ⟨ds, hds, hne, -⟩ := exists_paddedChars width n
  rw [hds]
  simpa using hne

/-- **Different numbers are padded to different texts**, at every width. -/
theorem paddedChars_injective {width n m : Nat} (h : paddedChars width n = paddedChars width m) : n = m := by
  obtain ⟨ds, hds, hne, rfl⟩ := exists_paddedChars width n
  obtain ⟨es, hes, hne', rfl⟩ := exists_paddedChars width m
  have hread : readNat? (ds.map digitChar) = readNat? (es.map digitChar) := by
    rw [← hds, ← hes, h]
  rw [readNat?_map_digitChar hne, readNat?_map_digitChar hne'] at hread
  exact Option.some.inj hread

/-! ## Runs of digits -/

/-- A text does not go on with a digit. -/
def StartsNoDigit (cs : List Char) : Prop :=
  ∀ c, cs.head? = some c → isDigit c = false

theorem startsNoDigit_nil : StartsNoDigit [] := by
  intro c h
  cases h

theorem startsNoDigit_cons {c : Char} {cs : List Char} (h : isDigit c = false) :
    StartsNoDigit (c :: cs) := by
  intro d hd
  obtain rfl := Option.some.inj hd
  exact h

/-- A run of digits ends where something else follows. -/
theorem spanDigits_append (ds : List Digit) {rest : List Char} (h : StartsNoDigit rest) :
    Numeral.spanDigits (ds.map digitChar ++ rest) = (ds.map digitChar, rest) := by
  unfold Numeral.spanDigits
  rw [List.span_eq_takeWhile_dropWhile]
  have htake : rest.takeWhile isDigit = [] ∧ rest.dropWhile isDigit = rest := by
    cases rest with
    | nil => exact ⟨rfl, rfl⟩
    | cons c cs =>
      have hc := h c rfl
      simp [hc]
  have hds : ∀ c ∈ ds.map digitChar, isDigit c = true := by
    intro c hc
    obtain ⟨d, -, rfl⟩ := List.mem_map.1 hc
    exact isDigit_digitChar d
  rw [List.takeWhile_append_of_pos hds, List.dropWhile_append_of_pos hds, htake.1, htake.2,
    List.append_nil]

/-! ## Integers -/

/-- A digit is no sign. -/
theorem splitSign_map_digitChar (ds : List Digit) (rest : List Char) (h : ds ≠ []) :
    splitSign (ds.map digitChar ++ rest) = (false, ds.map digitChar ++ rest) := by
  -- There are only ten digits to look at.
  have hplus : ∀ d : Digit, digitChar d ≠ '+' := by decide
  have hminus : ∀ d : Digit, digitChar d ≠ '-' := by decide
  cases ds with
  | nil => exact absurd rfl h
  | cons d ds =>
    rw [List.map_cons, List.cons_append]
    unfold splitSign
    split
    · rename_i heq
      exact absurd (List.cons.inj heq).1 (hplus d)
    · rename_i heq
      exact absurd (List.cons.inj heq).1 (hminus d)
    · rfl

/-- An integer is its sign and the number behind it. -/
theorem readInt?_of_splitSign {cs rest : List Char} {negative : Bool} {n : Nat}
    (hsplit : splitSign cs = (negative, rest)) (hread : readNat? rest = some n) :
    readInt? cs = some (if negative then -(n : Int) else n) := by
  unfold readInt?
  rw [hsplit]
  simp only [hread]
  rfl

theorem readInt?_natChars (n : Nat) : readInt? (natChars n) = some (n : Int) := by
  have hsplit := splitSign_map_digitChar (digits n) [] (digits_ne_nil n)
  rw [List.append_nil] at hsplit
  exact readInt?_of_splitSign hsplit (readNat?_natChars n)

theorem readInt?_minus (n : Nat) : readInt? ('-' :: natChars n) = some (-(n : Int)) :=
  readInt?_of_splitSign (show splitSign _ = (true, _) from rfl) (readNat?_natChars n)

theorem readInt?_plus (n : Nat) : readInt? ('+' :: natChars n) = some (n : Int) :=
  readInt?_of_splitSign (show splitSign _ = (false, _) from rfl) (readNat?_natChars n)

/-- The numeral of an integer is read back. -/
theorem readInt?_intText (n : Int) : readInt? (intText n).toList = some n := by
  cases n with
  | ofNat n =>
    unfold intText natText
    rw [String.toList_ofList, readInt?_natChars]
    rfl
  | negSucc n =>
    unfold intText
    rw [String.toList_ofList, readInt?_minus]
    rfl

end Decimal

/-! ## Numerals -/

namespace Numeral

open Decimal

/-- The whole part of a numeral is read back. -/
theorem readWhole?_natChars (n : Nat) : readWhole? (natChars n) = some n := by
  unfold readWhole?
  rw [if_neg, readNat?_natChars]
  rintro ⟨hhead, hne⟩
  have hzero : ∀ d : Digit, digitChar d = '0' → d = 0 := by decide
  have hdigits : (digits n).head? = some 0 := by
    unfold natChars at hhead
    rw [List.head?_map, Option.map_eq_some_iff] at hhead
    obtain ⟨d, hd, hchar⟩ := hhead
    rw [hd, hzero d hchar]
  -- A zero in front is all that is refused, and it stands alone in a zero.
  obtain rfl := head?_digits hdigits
  exact hne (by decide +kernel)

theorem startsNoDigit_exponentChars (plus : Bool) (e : Option Int) :
    StartsNoDigit (exponentChars plus e) := by
  cases e with
  | none => exact startsNoDigit_nil
  | some e => exact startsNoDigit_cons (by decide)

theorem readExponent?_exponentChars (plus : Bool) (e : Option Int) :
    readExponent? (exponentChars plus e) = some e := by
  cases e with
  | none => rfl
  | some e =>
    -- a sign is only left out in front of a number that is not negative
    have hread : readInt? ((if e < 0 then ['-'] else if plus then ['+'] else [])
        ++ natChars e.natAbs) = some e := by
      split
      · rw [List.singleton_append, readInt?_minus]
        congr 1
        omega
      · rename_i hneg
        have habs : (e.natAbs : Int) = e := by omega
        split
        · rw [List.singleton_append, readInt?_plus, habs]
        · rw [List.nil_append, readInt?_natChars, habs]
    show (readInt? ((if e < 0 then ['-'] else if plus then ['+'] else [])
      ++ natChars e.natAbs)).map some = _
    rw [hread]
    rfl

theorem readFraction?_append (ds : List Digit) {rest : List Char} (h : StartsNoDigit rest)
    (hpoint : rest.head? ≠ some '.') :
    readFraction? ((if ds.isEmpty then [] else '.' :: ds.map digitChar) ++ rest) =
      some (ds, rest) := by
  split
  · rename_i hempty
    obtain rfl := List.isEmpty_iff.1 hempty
    rw [List.nil_append]
    unfold readFraction?
    split
    · exact absurd rfl hpoint
    · rfl
  · rename_i hempty
    rw [List.cons_append]
    unfold readFraction?
    simp only [spanDigits_append ds h]
    rw [if_neg, mapM_digit?]
    · rfl
    · rw [List.isEmpty_map]
      exact hempty

/-- **A numeral is read back from its text.** -/
theorem read?_chars (plus : Bool) (n : Numeral) : read? (n.chars plus) = some n := by
  obtain ⟨negative, whole, fraction, exponent⟩ := n
  have hpoint : (exponentChars plus exponent).head? ≠ some '.' := by
    cases exponent with
    | none => exact fun h => nomatch h
    | some e => exact fun h => absurd (Option.some.inj h) (by decide)
  -- What stands behind the whole part, which ends where this begins.
  let tail := (if fraction.isEmpty then [] else '.' :: fraction.map digitChar)
    ++ exponentChars plus exponent
  have htail : StartsNoDigit tail := by
    show StartsNoDigit ((if fraction.isEmpty then [] else _) ++ _)
    split
    · exact startsNoDigit_exponentChars plus exponent
    · exact startsNoDigit_cons (by decide)
  have hspan : spanDigits (natChars whole ++ tail) = (natChars whole, tail) :=
    spanDigits_append (digits whole) htail
  have hfraction : readFraction? tail = some (fraction, exponentChars plus exponent) :=
    readFraction?_append fraction (startsNoDigit_exponentChars plus exponent) hpoint
  -- Without a sign the text starts with a digit, which is no minus.
  have hsign : ∀ cs, natChars whole ++ tail ≠ '-' :: cs := by
    intro cs heq
    have hsplit := splitSign_map_digitChar (digits whole) tail (digits_ne_nil whole)
    rw [show (digits whole).map digitChar = natChars whole from rfl, heq] at hsplit
    cases hsplit
  have hchars : chars plus ⟨negative, whole, fraction, exponent⟩ =
      (if negative then ['-'] else []) ++ (natChars whole ++ tail) := by
    simp only [chars, tail, List.append_assoc]
  rw [hchars]
  cases negative with
  | true =>
    rw [if_pos rfl]
    unfold read?
    simp only [List.cons_append, List.nil_append, hspan, readWhole?_natChars, hfraction,
      readExponent?_exponentChars, bind, pure, Option.bind_some]
  | false =>
    rw [if_neg Bool.false_ne_true, List.nil_append]
    unfold read?
    split
    rename_i heq
    split at heq
    · rename_i hminus
      exact absurd hminus (hsign _)
    · cases heq
      simp only [hspan, readWhole?_natChars, hfraction, readExponent?_exponentChars, bind, pure,
        Option.bind_some]

end Numeral
end TableForest
