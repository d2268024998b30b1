import TableForest.Cell.Value
import TableForest.Proofs.Number.Decimal

/-!
# Integers as texts

Which texts spell an integer, and which integer, is said without the reader: a sign or none, and digits with their
places.  A text that is written has neither a plus nor a superfluous zero.

## The architecture

* **`Decimal.Spells`** is the grammar of what is read and **`Decimal.Written`** of what is written.
* **`Decimal.readInt?_eq_some_iff`** and **`Decimal.written_intText`** compare the reader and the writer with them.
* **`readInt64?_eq_some_iff_spells`** adds the bounds of sixty-four bits.
-/

namespace TableForest

namespace Decimal

/-! ## The grammars -/

/-- Decimal digits, at least one: `[0-9]+`. -/
def IsDigits (cs : List Char) : Prop :=
  cs ≠ [] ∧ ∀ c ∈ cs, '0' ≤ c ∧ c ≤ '9'

/-- The sum of the digits, each at its place. -/
def placeValue : List Char → Nat
  | [] => 0
  | c :: cs => (c.toNat - '0'.toNat) * 10 ^ cs.length + placeValue cs

/-- The texts `[+-]?[0-9]+` and their values. -/
inductive Spells : List Char → Int → Prop
  | unsigned {cs : List Char} (digits : IsDigits cs) : Spells cs (placeValue cs)
  | plus {cs : List Char} (digits : IsDigits cs) : Spells ('+' :: cs) (placeValue cs)
  | minus {cs : List Char} (digits : IsDigits cs) : Spells ('-' :: cs) (-placeValue cs)

/-- Digits that start with a zero only if there is nothing else. -/
structure Unpadded (cs : List Char) : Prop where
  digits : IsDigits cs
  zero : cs.head? = some '0' → cs = ['0']

/-- The texts `0|-?[1-9][0-9]*` and their values. -/
inductive Written : List Char → Int → Prop
  | natural {cs : List Char} (digits : Unpadded cs) : Written cs (placeValue cs)
  | negative {cs : List Char} (digits : Unpadded cs) (positive : 0 < placeValue cs) :
      Written ('-' :: cs) (-placeValue cs)

/-! ## Digits -/

theorem isDigit_iff {c : Char} : isDigit c = true ↔ '0' ≤ c ∧ c ≤ '9' := by
  unfold isDigit digit?
  split
  · rename_i h
    simpa using h
  · rename_i h
    simpa using h

theorem isDigit_of_mem_natChars {n : Nat} {c : Char} (h : c ∈ natChars n) : isDigit c = true := by
  obtain ⟨d, -, rfl⟩ := List.mem_map.1 h
  exact isDigit_digitChar d

theorem natChars_ne_nil (n : Nat) : natChars n ≠ [] := by
  unfold natChars
  rw [Ne, List.map_eq_nil_iff]
  exact digits_ne_nil n

/-- Only zero is written with a zero in front, and then nothing follows. -/
theorem natChars_of_head? {n : Nat} (h : (natChars n).head? = some '0') : natChars n = ['0'] := by
  have hzero : ∀ d : Digit, digitChar d = '0' → d = 0 := by decide
  have hn : n = 0 := by
    apply head?_digits
    unfold natChars at h
    rw [List.head?_map, Option.map_eq_some_iff] at h
    obtain ⟨d, hd, hchar⟩ := h
    rw [hd, hzero d hchar]
  subst hn
  unfold natChars
  rw [digits]
  rfl

theorem eq_digitChar {c : Char} {d : Digit} (h : digit? c = some d) : c = digitChar d := by
  unfold digit? at h
  split at h
  · rename_i hrange
    have hle : 48 ≤ c.toNat ∧ c.toNat ≤ 57 := hrange
    obtain rfl := Option.some.inj h
    have hcode : 48 + (Fin.ofNat 10 (c.toNat - 48)).val = c.toNat := by
      show 48 + (c.toNat - 48) % 10 = c.toNat
      omega
    rw [digitChar, hcode, Char.ofNat_toNat]
  · cases h

theorem mapM_digit?_eq_some_iff {cs : List Char} {ds : List Digit} :
    cs.mapM digit? = some ds ↔ cs = ds.map digitChar := by
  constructor
  · intro h
    induction cs generalizing ds with
    | nil =>
      obtain rfl := Option.some.inj h
      rfl
    | cons c rest ih =>
      rw [List.mapM_cons] at h
      obtain ⟨d, hd, h⟩ := Option.bind_eq_some_iff.1 h
      obtain ⟨es, hes, h⟩ := Option.bind_eq_some_iff.1 h
      obtain rfl := Option.some.inj h
      rw [List.map_cons, ← eq_digitChar hd, ← ih hes]
  · rintro rfl
    exact mapM_digit? ds

/-- Digits are the characters of digits. -/
theorem exists_map_digitChar {cs : List Char} (h : ∀ c ∈ cs, '0' ≤ c ∧ c ≤ '9') :
    ∃ ds : List Digit, cs = ds.map digitChar := by
  induction cs with
  | nil => exact ⟨[], rfl⟩
  | cons c rest ih =>
    obtain ⟨hc, hrest⟩ := List.forall_mem_cons.1 h
    obtain ⟨ds, rfl⟩ := ih hrest
    obtain ⟨d, hd⟩ := Option.isSome_iff_exists.1 (isDigit_iff.2 hc)
    exact ⟨d :: ds, by rw [List.map_cons, ← eq_digitChar hd]⟩

theorem placeValue_map_digitChar (ds : List Digit) : placeValue (ds.map digitChar) = ofDigits ds := by
  have hplace : ∀ d : Digit, (digitChar d).toNat - '0'.toNat = d.val := by decide
  induction ds with
  | nil => rfl
  | cons d rest ih =>
    have hfirst : ofDigits [d] = d.val := by simp [ofDigits]
    rw [List.map_cons, placeValue, hplace, List.length_map, ih, ← List.singleton_append, ofDigits_append, hfirst]

theorem isDigits_map_digitChar {ds : List Digit} (h : ds ≠ []) : IsDigits (ds.map digitChar) := by
  refine ⟨by simpa using h, fun c hc => isDigit_iff.1 ?_⟩
  obtain ⟨d, -, rfl⟩ := List.mem_map.1 hc
  exact isDigit_digitChar d

/-! ## Reading -/

/-- **Digits are read as the sum of their places**, and nothing else is read. -/
theorem readNat?_eq_some_iff {cs : List Char} {n : Nat} : readNat? cs = some n ↔ IsDigits cs ∧ n = placeValue cs := by
  constructor
  · intro h
    unfold readNat? at h
    split at h
    · cases h
    · rename_i hne
      obtain ⟨ds, hds, rfl⟩ := Option.map_eq_some_iff.1 h
      obtain rfl := mapM_digit?_eq_some_iff.1 hds
      have hsome : ds ≠ [] := by
        rintro rfl
        exact hne rfl
      exact ⟨isDigits_map_digitChar hsome, (placeValue_map_digitChar ds).symm⟩
  · rintro ⟨⟨hne, hdigits⟩, rfl⟩
    obtain ⟨ds, rfl⟩ := exists_map_digitChar hdigits
    rw [readNat?_map_digitChar (by simpa using hne), placeValue_map_digitChar]

/-- A sign is split off if it is there. -/
theorem splitSign_cases (cs : List Char) :
    (∃ rest, cs = '+' :: rest ∧ splitSign cs = (false, rest)) ∨
      (∃ rest, cs = '-' :: rest ∧ splitSign cs = (true, rest)) ∨ splitSign cs = (false, cs) := by
  unfold splitSign
  split
  · exact .inl ⟨_, rfl, rfl⟩
  · exact .inr (.inl ⟨_, rfl, rfl⟩)
  · exact .inr (.inr rfl)

/-- **The reader of integers accepts what spells one.** -/
theorem readInt?_eq_some_iff {cs : List Char} {n : Int} : readInt? cs = some n ↔ Spells cs n := by
  constructor
  · intro h
    unfold readInt? at h
    rcases splitSign_cases cs with ⟨rest, rfl, hsplit⟩ | ⟨rest, rfl, hsplit⟩ | hsplit
    all_goals
      rw [hsplit] at h
      obtain ⟨m, hm, rfl⟩ := Option.map_eq_some_iff.1 h
      obtain ⟨k, hk, hcast⟩ := Option.bind_eq_some_iff.1 hm
      obtain rfl := Option.some.inj hcast
      obtain ⟨hdigits, rfl⟩ := readNat?_eq_some_iff.1 hk
    · exact .plus hdigits
    · exact .minus hdigits
    · exact .unsigned hdigits
  · intro h
    cases h with
    | unsigned hdigits =>
      -- what starts with a digit has no sign
      obtain ⟨ds, rfl⟩ := exists_map_digitChar hdigits.2
      have hsplit := splitSign_map_digitChar ds [] (by simpa using hdigits.1)
      rw [List.append_nil] at hsplit
      exact readInt?_of_splitSign hsplit (readNat?_eq_some_iff.2 ⟨hdigits, rfl⟩)
    | plus hdigits =>
      exact readInt?_of_splitSign (show splitSign _ = (false, _) from rfl) (readNat?_eq_some_iff.2 ⟨hdigits, rfl⟩)
    | minus hdigits =>
      exact readInt?_of_splitSign (show splitSign _ = (true, _) from rfl) (readNat?_eq_some_iff.2 ⟨hdigits, rfl⟩)

/-! ## Writing -/

theorem splitSign_intText (n : Int) : splitSign (intText n).toList = (decide (n < 0), natChars n.natAbs) := by
  cases n with
  | ofNat n =>
    unfold intText natText
    have hsplit := splitSign_map_digitChar (digits n) [] (digits_ne_nil n)
    have hsign : decide (Int.ofNat n < 0) = false := decide_eq_false (by simp)
    rw [List.append_nil] at hsplit
    rw [String.toList_ofList, hsign]
    exact hsplit
  | negSucc n =>
    unfold intText
    rw [String.toList_ofList, decide_eq_true (Int.negSucc_lt_zero n)]
    rfl

theorem placeValue_natChars (n : Nat) : placeValue (natChars n) = n := by
  unfold natChars
  rw [placeValue_map_digitChar, ofDigits_digits]

theorem unpadded_natChars (n : Nat) : Unpadded (natChars n) :=
  ⟨isDigits_map_digitChar (digits_ne_nil n), natChars_of_head?⟩

/-- **An integer is written with no plus and no superfluous zero.** -/
theorem written_intText (n : Int) : Written (intText n).toList n := by
  cases n with
  | ofNat n =>
    have hwritten := Written.natural (unpadded_natChars n)
    rw [placeValue_natChars] at hwritten
    unfold intText natText
    rw [String.toList_ofList]
    exact hwritten
  | negSucc n =>
    have hwritten := Written.negative (unpadded_natChars (n + 1)) (by rw [placeValue_natChars]; omega)
    rw [placeValue_natChars] at hwritten
    unfold intText
    rw [String.toList_ofList]
    exact hwritten

end Decimal

/-! ## Sixty-four bits -/

theorem toInt_ofInt_of_fits {n : Int} (h : Int64.minValue.toInt ≤ n ∧ n ≤ Int64.maxValue.toInt) :
    (Int64.ofInt n).toInt = n := by
  have hmax : Int64.maxValue.toInt = 9223372036854775807 := by decide
  exact Int64.toInt_ofInt_of_le h.1 (by omega)

theorem readInt64?_eq_some_iff {s : String} {n : Int64} :
    readInt64? s = some n ↔ Decimal.readInt? s.toList = some n.toInt := by
  unfold readInt64?
  constructor
  · intro h
    split at h
    · rename_i m hm
      split at h
      · rename_i hfits
        obtain rfl := Option.some.inj h
        rw [hm, toInt_ofInt_of_fits hfits]
      · cases h
    · cases h
  · intro h
    simp only [h]
    rw [if_pos ⟨Int64.minValue_le_toInt n, Int64.toInt_le n⟩, Int64.ofInt_toInt]

/-- **An integer of sixty-four bits is read from the texts that spell one**, and from no other. -/
theorem readInt64?_eq_some_iff_spells {s : String} {n : Int64} :
    readInt64? s = some n ↔ ∃ m, Decimal.Spells s.toList m ∧ (-2 ^ 63 ≤ m ∧ m < 2 ^ 63) ∧ n = .ofInt m := by
  have hmin : Int64.minValue.toInt = -2 ^ 63 := by decide
  have hmax : Int64.maxValue.toInt = 2 ^ 63 - 1 := by decide
  rw [readInt64?_eq_some_iff, Decimal.readInt?_eq_some_iff]
  constructor
  · intro h
    have hlow := Int64.minValue_le_toInt n
    have hhigh := Int64.toInt_le n
    exact ⟨n.toInt, h, by omega, (Int64.ofInt_toInt n).symm⟩
  · rintro ⟨m, hm, hfits, rfl⟩
    rw [toInt_ofInt_of_fits (by omega)]
    exact hm

end TableForest
