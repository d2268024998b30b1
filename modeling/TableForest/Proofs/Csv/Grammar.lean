import TableForest.Proofs.Csv.Kind
import TableForest.Proofs.Number.Exact

/-!
# Which texts are integers, numbers and words

The readers of CSV fields are compared with grammars that do not mention them.  An integer has no superfluous zeros
and fits sixty-four bits; a number is an integer that is held exactly, or has a point or an exponent and is finite;
a word is one of two in any case.

## The architecture

* **`isIntegerText_iff`** and **`unsigned_of_append`** say what stands behind a sign.
* **`plainInteger?_eq_some_iff`**, **`number?_eq_some_iff`** and **`word?_eq_some_iff`** are the readers, each as an
  equivalence.
* **`value_of_spellsInteger`**: an integer among numbers keeps its value.
-/

namespace TableForest.Csv

open Decimal

/-! ## The grammars -/

/-- A sign or none: `[+-]?`. -/
def IsSign (cs : List Char) : Prop :=
  cs = [] ∨ cs = ['+'] ∨ cs = ['-']

/-- Digits without a superfluous zero in front: `0|[1-9][0-9]*`. -/
def IsWhole (cs : List Char) : Prop :=
  cs = ['0'] ∨ ∃ c rest, cs = c :: rest ∧ ('1' ≤ c ∧ c ≤ '9') ∧ ∀ d ∈ rest, '0' ≤ d ∧ d ≤ '9'

/-- A text of the form `[+-]?(0|[1-9][0-9]*)`. -/
def IsIntegerText (s : String) : Prop :=
  ∃ sign whole, s.toList = sign ++ whole ∧ IsSign sign ∧ IsWhole whole

/-- The text spells an integer of sixty-four bits. -/
structure SpellsInteger (s : String) (n : Int64) : Prop where
  grammar : IsIntegerText s
  value : readInt? s.toList = some n.toInt

/-- The text spells a finite number with a point or an exponent, and no superfluous zero stands in front. -/
structure SpellsPointed (s : String) (x : Binary64) : Prop where
  pointed : '.' ∈ s.toList ∨ 'e' ∈ s.toList ∨ 'E' ∈ s.toList
  unpadded : ∀ sign rest, s.toList = sign ++ rest → IsSign sign → rest.head? = some '0' →
    rest.take 2 = ['0', '.']
  value : Binary.read? s = some x
  finite : x.isFinite = true

/-- The text spells a number: an integer up to the greatest that all are held to, or a number with a point. -/
def SpellsNumber (s : String) (x : Binary64) : Prop :=
  (∃ n, SpellsInteger s n ∧ (-2 ^ 53 ≤ n.toInt ∧ n.toInt ≤ 2 ^ 53) ∧ x = .ofInt n.toInt) ∨ SpellsPointed s x

/-- The text is `true` or `false`, in any case. -/
def SpellsWord (s : String) (b : Bool) : Prop :=
  Text.lowerAscii s = if b then "true" else "false"

/-! ## Signs -/

variable {s : String}

theorem exists_sign (s : String) : ∃ sign, s.toList = sign ++ unsigned s ∧ IsSign sign := by
  unfold unsigned
  cases s.toList with
  | nil => exact ⟨[], rfl, .inl rfl⟩
  | cons c cs =>
    unfold splitSign
    split
    · rename_i heq
      obtain ⟨rfl, rfl⟩ := List.cons.inj heq
      exact ⟨['+'], rfl, .inr (.inl rfl)⟩
    · rename_i heq
      obtain ⟨rfl, rfl⟩ := List.cons.inj heq
      exact ⟨['-'], rfl, .inr (.inr rfl)⟩
    · exact ⟨[], rfl, .inl rfl⟩

/-- What starts with a digit stands behind the sign. -/
theorem unsigned_of_append {sign rest : List Char} (h : s.toList = sign ++ rest) (hsign : IsSign sign)
    {c : Char} (hhead : rest.head? = some c) (hc : isDigit c = true) : unsigned s = rest := by
  unfold unsigned
  rw [h]
  -- without a sign the text starts with a digit, which no sign is
  rcases hsign with rfl | rfl | rfl
  · obtain ⟨d, ds, rfl⟩ : ∃ d ds, rest = d :: ds := List.exists_cons_of_ne_nil (by rintro rfl; cases hhead)
    obtain rfl : d = c := Option.some.inj hhead
    rw [List.nil_append]
    unfold splitSign
    split
    · rename_i heq
      obtain ⟨rfl, -⟩ := List.cons.inj heq
      exact absurd hc (by decide)
    · rename_i heq
      obtain ⟨rfl, -⟩ := List.cons.inj heq
      exact absurd hc (by decide)
    · rfl
  · rfl
  · rfl

/-! ## Integers -/

theorem one_le_iff {c : Char} : '1' ≤ c ↔ '0' ≤ c ∧ c ≠ '0' := by
  have hval : ∀ a b : Char, a ≤ b ↔ a.toNat ≤ b.toNat := fun a b => Iff.rfl
  have hzero : c = '0' ↔ c.toNat = 48 := ⟨fun h => h ▸ rfl, fun h => Char.ext (UInt32.toNat_inj.1 h)⟩
  rw [hval, hval, Ne, hzero]
  show 49 ≤ c.toNat ↔ 48 ≤ c.toNat ∧ ¬c.toNat = 48
  omega

/-- What the reader of integers checks is the grammar. -/
theorem isWhole_iff {cs : List Char} :
    IsWhole cs ↔ cs ≠ [] ∧ ¬(1 < cs.length ∧ cs.head? = some '0') ∧ ∀ c ∈ cs, isDigit c = true := by
  constructor
  · rintro (rfl | ⟨c, rest, rfl, ⟨hlow, hhigh⟩, hrest⟩)
    · exact ⟨List.cons_ne_nil _ _, fun h => absurd h.1 (Nat.lt_irrefl 1), List.forall_mem_singleton.2 rfl⟩
    · obtain ⟨hdigit, hzero⟩ := one_le_iff.1 hlow
      refine ⟨List.cons_ne_nil _ _, fun h => hzero (Option.some.inj h.2), ?_⟩
      exact List.forall_mem_cons.2 ⟨isDigit_iff.2 ⟨hdigit, hhigh⟩, fun d hd => isDigit_iff.2 (hrest d hd)⟩
  · rintro ⟨hne, hzero, hdigits⟩
    obtain ⟨c, rest, rfl⟩ := List.exists_cons_of_ne_nil hne
    obtain ⟨hc, hrest⟩ := List.forall_mem_cons.1 hdigits
    -- a zero in front of a digit is ruled out, so it stands alone
    by_cases hhead : c = '0'
    · subst hhead
      obtain rfl : rest = [] := by
        refine Decidable.byContradiction fun hmore => hzero ⟨?_, rfl⟩
        have := List.length_pos_iff.2 hmore
        rw [List.length_cons]
        omega
      exact .inl rfl
    · obtain ⟨hlow, hhigh⟩ := isDigit_iff.1 hc
      exact .inr ⟨c, rest, rfl, ⟨one_le_iff.2 ⟨hlow, hhead⟩, hhigh⟩, fun d hd => isDigit_iff.1 (hrest d hd)⟩

theorem isIntegerText_iff : IsIntegerText s ↔ IsWhole (unsigned s) := by
  constructor
  · rintro ⟨sign, whole, hs, hsign, hwhole⟩
    obtain ⟨hne, -, hdigits⟩ := isWhole_iff.1 hwhole
    obtain ⟨c, rest, rfl⟩ := List.exists_cons_of_ne_nil hne
    rw [unsigned_of_append hs hsign rfl (hdigits c List.mem_cons_self)]
    exact hwhole
  · intro hwhole
    obtain ⟨sign, hs, hsign⟩ := exists_sign s
    exact ⟨sign, unsigned s, hs, hsign, hwhole⟩

/-- **The reader of integers accepts the texts of integers.** -/
theorem plainInteger?_eq_some_iff {n : Int64} : plainInteger? s = some n ↔ SpellsInteger s n := by
  have hwhole := @isWhole_iff (unsigned s)
  constructor
  · intro h
    unfold plainInteger? at h
    simp only [Option.ite_none_left_eq_some, Bool.or_eq_true, Bool.and_eq_true, decide_eq_true_eq, beq_iff_eq,
      Bool.not_eq_true', List.isEmpty_iff, not_or, Bool.not_eq_false, List.all_eq_true] at h
    obtain ⟨⟨⟨hne, hzero⟩, hdigits⟩, hread⟩ := h
    exact ⟨isIntegerText_iff.2 (hwhole.2 ⟨hne, hzero, hdigits⟩), readInt64?_eq_some_iff.1 hread⟩
  · rintro ⟨hgrammar, hvalue⟩
    obtain ⟨hne, hzero, hdigits⟩ := hwhole.1 (isIntegerText_iff.1 hgrammar)
    unfold plainInteger?
    simp only [Option.ite_none_left_eq_some, Bool.or_eq_true, Bool.and_eq_true, decide_eq_true_eq, beq_iff_eq,
      Bool.not_eq_true', List.isEmpty_iff, not_or, Bool.not_eq_false, List.all_eq_true]
    exact ⟨⟨⟨hne, hzero⟩, hdigits⟩, readInt64?_eq_some_iff.2 hvalue⟩

/-! ## Numbers -/

/-- Neither a point nor the mark of an exponent stands in the text of an integer. -/
theorem not_mem_of_isIntegerText (h : IsIntegerText s) {c : Char} (hdigit : isDigit c = false) (hsign : ¬IsSign [c]) :
    c ∉ s.toList := by
  obtain ⟨sign, whole, hs, hs', hwhole⟩ := h
  intro hmem
  rw [hs, List.mem_append] at hmem
  rcases hmem with hmem | hmem
  · rcases hs' with rfl | rfl | rfl
    · cases hmem
    · exact hsign (.inr (.inl (by rw [List.mem_singleton.1 hmem])))
    · exact hsign (.inr (.inr (by rw [List.mem_singleton.1 hmem])))
  · rw [(isWhole_iff.1 hwhole).2.2 c hmem] at hdigit
    cases hdigit

theorem not_isIntegerText_of_pointed (h : '.' ∈ s.toList ∨ 'e' ∈ s.toList ∨ 'E' ∈ s.toList) :
    ¬IsIntegerText s := by
  intro hinteger
  have habsent : ∀ c : Char, isDigit c = false → ¬IsSign [c] → c ∉ s.toList :=
    fun c => not_mem_of_isIntegerText hinteger
  rcases h with h | h | h
  · exact habsent '.' (by decide) (by simp [IsSign]) h
  · exact habsent 'e' (by decide) (by simp [IsSign]) h
  · exact habsent 'E' (by decide) (by simp [IsSign]) h

/-- A zero in front of a number with a point is the one before the point. -/
theorem unpadded_iff (hpointed : '.' ∈ s.toList ∨ 'e' ∈ s.toList ∨ 'E' ∈ s.toList) :
    (∀ sign rest, s.toList = sign ++ rest → IsSign sign → rest.head? = some '0' → rest.take 2 = ['0', '.']) ↔
      ¬(1 < (unsigned s).length ∧ (unsigned s).head? = some '0' ∧ (unsigned s).take 2 ≠ ['0', '.']) := by
  constructor
  · rintro h ⟨-, hhead, hne⟩
    obtain ⟨sign, hs, hsign⟩ := exists_sign s
    exact hne (h sign _ hs hsign hhead)
  · intro h sign rest hs hsign hhead
    have hrest := unsigned_of_append hs hsign hhead (by decide)
    rw [hrest] at h
    refine Decidable.byContradiction fun hne => h ⟨?_, hhead, hne⟩
    -- a zero alone would be an integer
    refine Decidable.byContradiction fun hshort => not_isIntegerText_of_pointed hpointed ?_
    obtain ⟨c, more, rfl⟩ : ∃ c more, rest = c :: more := List.exists_cons_of_ne_nil (by rintro rfl; cases hhead)
    obtain rfl : c = '0' := Option.some.inj hhead
    have hmore : more = [] := by
      rw [List.length_cons] at hshort
      exact List.length_eq_zero_iff.1 (by omega)
    exact ⟨sign, ['0'], by rw [hs, hmore], hsign, .inl rfl⟩

theorem plainNumber?_eq_some_iff {x : Binary64} : plainNumber? s = some x ↔ SpellsPointed s x := by
  have hmarks : (s.toList.contains '.' || s.toList.contains 'e' || s.toList.contains 'E') = true ↔
      '.' ∈ s.toList ∨ 'e' ∈ s.toList ∨ 'E' ∈ s.toList := by
    simp [or_assoc]
  by_cases hpointed : '.' ∈ s.toList ∨ 'e' ∈ s.toList ∨ 'E' ∈ s.toList
  · have hunpadded := unpadded_iff hpointed
    unfold plainNumber?
    simp only [hmarks.2 hpointed, Bool.not_true, Bool.false_eq_true, if_false, Option.ite_none_left_eq_some, Bool.and_eq_true,
      decide_eq_true_eq, beq_iff_eq, and_assoc, Option.filter_eq_some_iff]
    rw [← hunpadded]
    exact ⟨fun ⟨hfront, hvalue, hfinite⟩ => ⟨hpointed, hfront, hvalue, hfinite⟩,
      fun ⟨_, hfront, hvalue, hfinite⟩ => ⟨hfront, hvalue, hfinite⟩⟩
  · unfold plainNumber?
    simp only [Bool.eq_false_iff.2 (mt hmarks.1 hpointed), Bool.not_false, if_true]
    exact ⟨nofun, fun h => absurd h.pointed hpointed⟩

/-- **The reader of numbers accepts the texts of numbers.** -/
theorem number?_eq_some_iff {x : Binary64} : number? s = some x ↔ SpellsNumber s x := by
  have hexact : maxExactInteger = 2 ^ 53 := by decide
  unfold number? SpellsNumber
  rw [hexact]
  -- what is an integer is read as one, and no text is both an integer and pointed
  cases hread : plainInteger? s with
  | some n =>
    have hn := plainInteger?_eq_some_iff.1 hread
    have hpointed : ¬SpellsPointed s x := fun h => not_isIntegerText_of_pointed h.pointed hn.grammar
    have hunique : ∀ m, SpellsInteger s m ↔ m = n := by
      intro m
      rw [← plainInteger?_eq_some_iff, hread, Option.some.injEq]
      exact eq_comm
    simp [hpointed, hunique, eq_comm]
  | none =>
    have hnone : ∀ m, ¬SpellsInteger s m := by
      intro m hm
      rw [plainInteger?_eq_some_iff.2 hm] at hread
      cases hread
    simp [hnone, plainNumber?_eq_some_iff]

/-- An integer among numbers keeps its value. -/
theorem value_of_spellsInteger {x : Binary64} (h : SpellsNumber s x) {n : Int64} (hn : SpellsInteger s n) :
    x.value = n.toInt := by
  rcases h with ⟨m, hm, hrange, rfl⟩ | hpointed
  · obtain rfl : m = n := by
      have hread := plainInteger?_eq_some_iff.2 hm
      rw [plainInteger?_eq_some_iff.2 hn] at hread
      exact (Option.some.inj hread).symm
    refine (Binary.value_ofInt_iff (Binary.isFinite_ofInt m)).2 (Format.holds_of_le (by decide) ?_)
    show m.toInt.natAbs ≤ 2 ^ 53
    omega
  · exact absurd hn.grammar (not_isIntegerText_of_pointed hpointed.pointed)

/-! ## Words -/

/-- **The reader of words accepts the two words.** -/
theorem word?_eq_some_iff {b : Bool} : word? s = some b ↔ SpellsWord s b := by
  unfold word? SpellsWord
  generalize Text.lowerAscii s = w
  by_cases htrue : w = "true"
  · subst htrue
    cases b <;> simp
  · by_cases hfalse : w = "false"
    · subst hfalse
      cases b <;> simp
    · cases b <;> simp [htrue, hfalse]

end TableForest.Csv
