import TableForest.Csv.Table
import TableForest.Proofs.Csv.Record
import TableForest.Proofs.Text.Blank

/-!
# Fields without the blanks at their ends

A field is trimmed twice: as bytes, which takes the ASCII blanks away, and as text, which takes away the others.
Bytes are cut between characters only, so a field of text is still one, and the outcome is the text without its
blanks.

## The architecture

* **`isAsciiBlank_of_mem`**: the bytes of a character are blanks iff the character is, so trimming the bytes of a
  text trims its characters (**`trimField_encode`**).
* **`Text.trimBlanks_of_blanks`**: what is taken away first makes no difference to the text in the end.
-/

namespace TableForest.Csv

/-! ## Blanks as bytes -/

/-- A character whose byte is taken for a blank. -/
def isAsciiBlankChar (c : Char) : Bool :=
  c.val.toNat ≤ 127 && isAsciiBlank (UInt8.ofNat c.val.toNat)

/-- The bytes of a character are blanks iff the character is one. -/
theorem isAsciiBlank_of_mem {c : Char} {b : UInt8} (h : b ∈ String.utf8EncodeChar c) :
    isAsciiBlank b = isAsciiBlankChar c := by
  -- a byte of a longer code has its high bit
  have hhigh : ∀ n : Nat, 128 ≤ n → n < 256 → isAsciiBlank (UInt8.ofNat n) = false := by
    intro n hlow hlt
    simp [isAsciiBlank, ← UInt8.toNat_inj]
    omega
  unfold String.utf8EncodeChar at h
  unfold isAsciiBlankChar
  generalize c.val.toNat = v at h ⊢
  simp only at h
  split at h
  · rename_i hascii
    obtain rfl := List.mem_singleton.1 h
    simp [hascii]
  · rename_i hlong
    rw [decide_eq_false hlong, Bool.false_and]
    split at h
    · simp only [List.mem_cons, List.not_mem_nil, or_false] at h
      rcases h with rfl | rfl
      all_goals exact hhigh _ (by omega) (by omega)
    · split at h
      · simp only [List.mem_cons, List.not_mem_nil, or_false] at h
        rcases h with rfl | rfl | rfl
        all_goals exact hhigh _ (by omega) (by omega)
      · simp only [List.mem_cons, List.not_mem_nil, or_false] at h
        rcases h with rfl | rfl | rfl | rfl
        all_goals exact hhigh _ (by omega) (by omega)

theorem isBlank_of_isAsciiBlankChar {c : Char} (h : isAsciiBlankChar c = true) : Text.isBlank c = true := by
  unfold isAsciiBlankChar at h
  unfold Text.isBlank
  rw [show c.toNat = c.val.toNat from rfl]
  generalize c.val.toNat = v at h ⊢
  simp only [isAsciiBlank, ← UInt8.toNat_inj, Bool.and_eq_true, Bool.or_eq_true, decide_eq_true_eq,
    UInt8.toNat_ofNat', UInt8.reduceToNat] at h
  simp only [Bool.and_eq_true, Bool.or_eq_true, decide_eq_true_eq, beq_iff_eq]
  omega

/-- Dropping code units drops characters if all units of a character are alike. -/
theorem dropWhile_flatMap {α β : Type} {code : α → List β} {p : β → Bool} {q : α → Bool} (hne : ∀ a, code a ≠ [])
    (h : ∀ a, ∀ b ∈ code a, p b = q a) (xs : List α) :
    (xs.flatMap code).dropWhile p = (xs.dropWhile q).flatMap code := by
  induction xs with
  | nil => rfl
  | cons a rest ih =>
    rw [List.flatMap_cons, List.dropWhile_cons]
    cases hq : q a with
    | true =>
      rw [List.dropWhile_append_of_pos fun b hb => (h a b hb).trans hq, ih]
      rfl
    | false =>
      obtain ⟨b, more, hcode⟩ := List.exists_cons_of_ne_nil (hne a)
      have hb : p b = false := (h a b (by simp [hcode])).trans hq
      rw [hcode, List.cons_append, List.dropWhile_cons, hb]
      simp [hcode]

/-- The characters of a text without the ASCII blanks at its ends. -/
def trimChars (cs : List Char) : List Char :=
  ((cs.dropWhile isAsciiBlankChar).reverse.dropWhile isAsciiBlankChar).reverse

/-- **Bytes are cut between characters.** -/
theorem trimField_encode (s : String) :
    trimField (Utf8.encode s) = Utf8.encode (String.ofList (trimChars s.toList)) := by
  let back (c : Char) : Bytes := (String.utf8EncodeChar c).reverse
  have hne : ∀ c, String.utf8EncodeChar c ≠ [] := fun c => String.utf8EncodeChar_ne_nil
  have hfront : ∀ c, ∀ b ∈ String.utf8EncodeChar c, isAsciiBlank b = isAsciiBlankChar c :=
    fun c b hb => isAsciiBlank_of_mem hb
  have hback : ∀ c, ∀ b ∈ back c, isAsciiBlank b = isAsciiBlankChar c :=
    fun c b hb => isAsciiBlank_of_mem (List.mem_reverse.1 hb)
  have hreverse : ∀ cs : List Char, (cs.flatMap String.utf8EncodeChar).reverse = cs.reverse.flatMap back :=
    fun cs => List.reverse_flatMap
  have hreverse' : ∀ cs : List Char, (cs.flatMap back).reverse = cs.reverse.flatMap String.utf8EncodeChar := by
    intro cs
    simp [back, List.reverse_flatMap, Function.comp_def]
  unfold trimField trimChars
  rw [Utf8.encode_eq_flatMap, Utf8.encode_eq_flatMap, String.toList_ofList, dropWhile_flatMap hne hfront, hreverse,
    dropWhile_flatMap (fun c => mt List.reverse_eq_nil_iff.1 (hne c)) hback, hreverse']

/-- The ASCII blanks are among those that are taken away in the end. -/
theorem trimBlanks_trimChars (cs : List Char) : Text.trimBlanks (trimChars cs) = Text.trimBlanks cs := by
  have hblank : ∀ ds : List Char, ∀ c ∈ ds.takeWhile isAsciiBlankChar, Text.isBlank c = true :=
    fun ds c hc => isBlank_of_isAsciiBlankChar (List.mem_takeWhile_imp hc)
  have hfront := List.takeWhile_append_dropWhile (p := isAsciiBlankChar) (l := cs)
  have hback := List.takeWhile_append_dropWhile (p := isAsciiBlankChar)
    (l := (cs.dropWhile isAsciiBlankChar).reverse)
  have hsplit : cs = cs.takeWhile isAsciiBlankChar ++ (trimChars cs ++
      ((cs.dropWhile isAsciiBlankChar).reverse.takeWhile isAsciiBlankChar).reverse) := by
    unfold trimChars
    rw [← List.reverse_append, hback, List.reverse_reverse, hfront]
  have htrim := Text.trimBlanks_of_blanks (hblank cs)
    (fun c hc => hblank (cs.dropWhile isAsciiBlankChar).reverse c (List.mem_reverse.1 hc)) (trimChars cs)
  rw [← hsplit] at htrim
  exact htrim.symm

end TableForest.Csv
