import TableForest.Text.Utf8

/-!
# Texts and their bytes

The bytes of a text are those of its characters, one character after the other, and an ASCII byte stands in them for
its own character only (**`toNat_of_mem_utf8EncodeChar`**).  So texts can be taken apart at an ASCII character before
or after they are encoded.
-/

namespace TableForest.Utf8

theorem encode_eq_flatMap (s : String) : encode s = s.toList.flatMap String.utf8EncodeChar := by
  have h : s.toByteArray = s.toList.utf8Encode := by rw [← String.toByteArray_ofList, String.ofList_toList]
  rw [encode, String.toUTF8_eq_toByteArray, h, List.utf8Encode]
  simp

theorem encode_append (s t : String) : encode (s ++ t) = encode s ++ encode t := by
  rw [encode_eq_flatMap, encode_eq_flatMap, encode_eq_flatMap, String.toList_append, List.flatMap_append]

theorem encode_ofList (cs : List Char) : encode (String.ofList cs) = cs.flatMap String.utf8EncodeChar := by
  rw [encode_eq_flatMap, String.toList_ofList]

/-- Bytes spell the text whose bytes they are, and no other. -/
theorem decode?_eq_some_iff {bs : Bytes} {s : String} : decode? bs = some s ↔ encode s = bs := by
  constructor
  · intro h
    unfold decode? String.fromUTF8? at h
    split at h
    · obtain rfl := Option.some.inj h
      simp only [encode, String.toUTF8_eq_toByteArray]
      rfl
    · cases h
  · rintro rfl
    exact decode?_encode s

theorem encode_inj {s t : String} : encode s = encode t ↔ s = t := by
  rw [← decode?_eq_some_iff, decode?_encode, Option.some_inj, eq_comm]

theorem encode_eq_nil {s : String} : encode s = [] ↔ s = "" := by
  rw [← decode?_eq_some_iff, show decode? [] = some "" by decide, Option.some_inj, eq_comm]

/-! ## ASCII -/

theorem utf8EncodeChar_of_ascii {c : Char} (h : c.toNat < 0x80) :
    String.utf8EncodeChar c = [UInt8.ofNat c.toNat] := by
  unfold String.utf8EncodeChar
  exact if_pos (Nat.lt_succ_iff.1 h)

/-- **An ASCII byte stands for its own character**: the other characters have none in their bytes. -/
theorem toNat_of_mem_utf8EncodeChar {b : UInt8} {c : Char} (hb : b.toNat < 0x80)
    (h : b ∈ String.utf8EncodeChar c) : c.toNat = b.toNat := by
  have hvalue : c.val.toNat = c.toNat := rfl
  unfold String.utf8EncodeChar at h
  dsimp only at h
  rw [hvalue] at h
  generalize c.toNat = v at h ⊢
  split at h
  · simp [← UInt8.toNat_inj] at h
    omega
  -- every byte of a longer code has its highest bit set
  · exfalso
    split at h
    · simp [← UInt8.toNat_inj] at h
      omega
    · split at h
      · simp [← UInt8.toNat_inj] at h
        omega
      · simp [← UInt8.toNat_inj] at h
        omega

theorem not_mem_encode {b : UInt8} {c : Char} {s : String} (hb : b.toNat < 0x80) (hc : c.toNat = b.toNat)
    (h : c ∉ s.toList) : b ∉ encode s := by
  rw [encode_eq_flatMap, List.mem_flatMap]
  rintro ⟨d, hd, hmem⟩
  have hcode := (toNat_of_mem_utf8EncodeChar hb hmem).trans hc.symm
  exact h (Char.toNat_inj.1 hcode ▸ hd)

/-- **What stands before and behind an ASCII byte of a text is text**, since that byte is a whole character. -/
theorem texts_around_ascii {b : UInt8} (hb : b.toNat < 0x80) {s : String} {front rest : Bytes}
    (h : encode s = front ++ b :: rest) : ∃ u v, front = encode u ∧ rest = encode v := by
  rw [encode_eq_flatMap] at h
  generalize s.toList = cs at h
  induction cs generalizing front with
  | nil => simp at h
  | cons c cs ih =>
    rw [List.flatMap_cons] at h
    rcases List.append_eq_append_iff.1 h with ⟨more, hfront, hmore⟩ | ⟨part, hc, hrest⟩
    · -- the byte comes after the first character
      obtain ⟨u, v, rfl, hv⟩ := ih hmore
      refine ⟨String.ofList [c] ++ u, v, ?_, hv⟩
      rw [hfront, encode_append, encode_ofList, List.flatMap_singleton]
    · cases part with
      | nil =>
        obtain ⟨u, v, -, hv⟩ := ih (show _ = [] ++ b :: rest from hrest.symm)
        refine ⟨String.ofList [c], v, ?_, hv⟩
        rw [encode_ofList, List.flatMap_singleton, hc, List.append_nil]
      | cons b' part =>
        -- the byte is in the first character, so it is all of it
        obtain ⟨rfl, hbehind⟩ := List.cons.inj hrest
        have hmem : b ∈ String.utf8EncodeChar c := by
          rw [hc]
          exact List.mem_append_right front List.mem_cons_self
        have hascii : c.toNat < 0x80 := toNat_of_mem_utf8EncodeChar hb hmem ▸ hb
        rw [utf8EncodeChar_of_ascii hascii] at hc
        have hlength := congrArg List.length hc
        simp only [List.length_append, List.length_cons, List.length_nil] at hlength
        obtain rfl : front = [] := List.length_eq_zero_iff.1 (by omega)
        obtain rfl : part = [] := List.length_eq_zero_iff.1 (by omega)
        exact ⟨"", String.ofList cs, rfl, (encode_ofList cs).symm ▸ hbehind⟩

/-! ## Bytes that are shown -/

theorem lossy_encode (s : String) : lossy (encode s) = s := by
  rw [lossy, decode?_encode, Option.getD_some]

/-- Something is shown of bytes if there are any. -/
theorem lossy_ne_empty {bs : Bytes} (h : bs ≠ []) : lossy bs ≠ "" := by
  obtain ⟨b, rest, rfl⟩ := List.exists_cons_of_ne_nil h
  unfold lossy
  cases hdecode : decode? (b :: rest) with
  | some s =>
    rintro rfl
    rw [decode?_eq_some_iff] at hdecode
    cases hdecode
  | none =>
    rw [Option.getD_none]
    intro hempty
    have hchars := congrArg String.toList hempty
    rw [String.toList_ofList, lossyChars] at hchars
    obtain ⟨hunit, -⟩ := List.append_eq_nil_iff.1 hchars
    -- the first unit is shown as its character or as the replacement
    have hlength : 0 < unitLength (b :: rest) := by
      rw [unitLength]
      cases follow? b with
      | none => exact Nat.one_pos
      | some missing => exact Nat.add_pos_left Nat.one_pos _
    obtain ⟨n, hn⟩ := Nat.exists_eq_succ_of_ne_zero (Nat.ne_of_gt hlength)
    rw [hn, List.take_succ_cons] at hunit
    cases hfirst : decode? (b :: rest.take n) with
    | none =>
      rw [hfirst] at hunit
      cases hunit
    | some s =>
      rw [hfirst] at hunit
      obtain rfl := String.toList_eq_nil_iff.1 hunit
      rw [decode?_eq_some_iff] at hfirst
      cases hfirst

end TableForest.Utf8
