import TableForest.Json.Printer
import TableForest.Json.Token
import TableForest.Proofs.Number.Decimal

/-!
# Printed JSON has the tokens of its value

The bytes that the printer writes are taken apart into the tokens of the value again, in both styles and at
every level of nesting.

## The architecture

* **`Json.Lexes`** and **`Json.LexesOpen`** say what the lexer makes of some bytes; in the second case a word
  or numeral at their end is still open, and only a break may follow.
* Words, numerals and string literals are taken apart one by one; of a literal every byte is a piece that
  stands for it.
* **`lexesOpen_bytesAt`** goes through the value.
-/

namespace TableForest.Json

/-! ## Tokens of a value -/

/-- All strings and keys in a value are texts. -/
inductive Spelled : Json → Prop where
  | null : Spelled .null
  | bool (b : Bool) : Spelled (.bool b)
  | number (n : Numeral) : Spelled (.number n)
  | string (s : String) : Spelled (.string (some s))
  | array {items : List Json} (hitems : ∀ v ∈ items, Spelled v) : Spelled (.array items)
  | object {members : List (Option String × Json)} (hkeys : ∀ m ∈ members, ∃ key, m.1 = some key)
      (hvalues : ∀ m ∈ members, Spelled m.2) : Spelled (.object members)

mutual

def tokens : Json → List Token
  | .null => [.null]
  | .bool b => [.bool b]
  | .number n => [.number n]
  | .string s => [.string s]
  | .array items => .beginArray :: itemTokens true items ++ [.endArray]
  | .object members => .beginObject :: memberTokens true members ++ [.endObject]

/-- The tokens of the items of an array; `first` says that none stands before them. -/
def itemTokens (first : Bool) : List Json → List Token
  | [] => []
  | v :: rest => (if first then [] else [.comma]) ++ tokens v ++ itemTokens false rest

/-- The tokens of the members of an object; `first` says that none stands before them. -/
def memberTokens (first : Bool) : List (Option String × Json) → List Token
  | [] => []
  | (key, v) :: rest =>
    (if first then [] else [.comma]) ++ [.string key, .colon] ++ tokens v ++ memberTokens false rest

end

/-! ## What the lexer makes of bytes -/

/-- Bytes are whole tokens, and after them the lexer is between tokens again. -/
def Lexes (bs : Bytes) (ts : List Token) : Prop :=
  ∀ acc, bs.foldlM Lexer.step? ⟨.between, acc⟩ = some ⟨.between, ts.reverse ++ acc⟩

/-- Bytes are tokens if they end here. -/
def LexesOpen (bs : Bytes) (ts : List Token) : Prop :=
  ∀ acc, ∃ lexer, bs.foldlM Lexer.step? ⟨.between, acc⟩ = some lexer ∧
    lexer.close? = some ⟨.between, ts.reverse ++ acc⟩

/-- No word or numeral goes on with the first of the bytes. -/
def StartsBreak (bs : Bytes) : Prop :=
  ∃ b rest, bs = b :: rest ∧ isWordByte b = false ∧ isNumeralByte b = false

theorem Lexes.nil : Lexes [] [] := fun _ => rfl

theorem Lexes.isOpen {bs : Bytes} {ts : List Token} (h : Lexes bs ts) : LexesOpen bs ts :=
  fun acc => ⟨_, h acc, rfl⟩

theorem Lexes.append {bs cs : Bytes} {ts us : List Token} (h : Lexes bs ts) (h' : Lexes cs us) :
    Lexes (bs ++ cs) (ts ++ us) := by
  intro acc
  rw [List.foldlM_append, h acc]
  show cs.foldlM Lexer.step? _ = _
  rw [h', List.reverse_append, List.append_assoc]

/-- A byte that breaks words and numerals off is read as if they had ended before. -/
theorem Lexer.step?_of_close? {lexer : Lexer} {acc : List Token} {b : UInt8}
    (h : lexer.close? = some ⟨.between, acc⟩) (hword : isWordByte b = false)
    (hnumeral : isNumeralByte b = false) : lexer.step? b = Lexer.begin? acc b := by
  obtain ⟨mode, tokens⟩ := lexer
  cases mode with
  | between =>
    cases h
    rfl
  | word seen =>
    show (if isWordByte b then _ else _) = _
    rw [if_neg (by rw [hword]; exact Bool.false_ne_true), h]
    rfl
  | numeral seen =>
    show (if isNumeralByte b then _ else _) = _
    rw [if_neg (by rw [hnumeral]; exact Bool.false_ne_true), h]
    rfl
  -- Within a string literal nothing can be closed.
  | string seen => cases h
  | escape seen => cases h
  | hex seen left value => cases h

theorem LexesOpen.append {bs cs : Bytes} {ts us : List Token} (h : LexesOpen bs ts) (h' : Lexes cs us)
    (hbreak : StartsBreak cs) : Lexes (bs ++ cs) (ts ++ us) := by
  intro acc
  obtain ⟨lexer, hsteps, hclose⟩ := h acc
  obtain ⟨b, rest, rfl, hword, hnumeral⟩ := hbreak
  have hrest := h' (ts.reverse ++ acc)
  rw [List.foldlM_cons] at hrest
  rw [List.foldlM_append, hsteps]
  show (b :: rest).foldlM Lexer.step? lexer = _
  rw [List.foldlM_cons, Lexer.step?_of_close? hclose hword hnumeral, List.reverse_append, List.append_assoc]
  exact hrest

theorem LexesOpen.tokens? {bs : Bytes} {ts : List Token} (h : LexesOpen bs ts) : tokens? bs = some ts := by
  obtain ⟨lexer, hsteps, hclose⟩ := h []
  unfold Json.tokens? Lexer.start
  rw [hsteps, Option.bind_some]
  unfold Lexer.finish?
  rw [hclose, List.append_nil, Option.bind_some]
  show some ts.reverse.reverse = some ts
  rw [List.reverse_reverse]

/-! ## Words and marks -/

theorem lexesOpen_null : LexesOpen (Utf8.ascii "null") [.null] :=
  fun acc => ⟨⟨.word (Utf8.ascii "null").reverse, acc⟩, rfl, rfl⟩

theorem lexesOpen_bool (b : Bool) : LexesOpen (Utf8.ascii (if b then "true" else "false")) [.bool b] := by
  cases b with
  | true => exact fun acc => ⟨⟨.word (Utf8.ascii "true").reverse, acc⟩, rfl, rfl⟩
  | false => exact fun acc => ⟨⟨.word (Utf8.ascii "false").reverse, acc⟩, rfl, rfl⟩

theorem lexes_comma : Lexes [0x2C] [.comma] := fun _ => rfl

theorem lexes_colon (style : Style) : Lexes style.colon [.colon] := by
  cases style with
  | compact => exact fun _ => rfl
  | pretty => exact fun _ => rfl

theorem lexes_lineBreak (style : Style) (level : Nat) : Lexes (style.lineBreak level) [] := by
  cases style with
  | compact => exact .nil
  | pretty =>
    have hspace : Lexes [0x20] [] := fun _ => rfl
    have hbreak : Lexes (Utf8.ascii "\n") [] := fun _ => rfl
    have hspaces : ∀ k, Lexes (List.replicate k 0x20) [] := by
      intro k
      induction k with
      | zero => exact .nil
      | succ k ih => exact hspace.append ih
    exact hbreak.append (hspaces _)

/-- A new line is a break, or it is nothing and what follows is one. -/
theorem startsBreak_lineBreak (style : Style) (level : Nat) {bs : Bytes} (h : StartsBreak bs) :
    StartsBreak (style.lineBreak level ++ bs) := by
  cases style with
  | compact => exact h
  | pretty => exact ⟨_, _, rfl, by decide, by decide⟩

/-! ## Numerals -/

def IsNumeralChar (c : Char) : Prop :=
  (∃ d, c = Decimal.digitChar d) ∨ c = '-' ∨ c = '+' ∨ c = '.' ∨ c = 'e'

def charByte (c : Char) : UInt8 :=
  UInt8.ofNat c.toNat

theorem IsNumeralChar.charByte {c : Char} (h : IsNumeralChar c) :
    asciiChar (charByte c) = c ∧ isNumeralByte (Json.charByte c) = true := by
  rcases h with ⟨d, rfl⟩ | rfl | rfl | rfl | rfl
  · revert d
    decide
  · decide
  · decide
  · decide
  · decide

theorem isNumeralChar_of_mem {n : Numeral} {plus : Bool} {c : Char} (h : c ∈ n.chars plus) :
    IsNumeralChar c := by
  have hdigits : ∀ ds : List Decimal.Digit, c ∈ ds.map Decimal.digitChar → IsNumeralChar c := by
    intro ds hc
    obtain ⟨d, -, rfl⟩ := List.mem_map.1 hc
    exact .inl ⟨d, rfl⟩
  unfold Numeral.chars at h
  simp only [List.mem_append] at h
  -- the sign, the digits before the point, those behind it, and the exponent
  rcases h with ((hsign | hwhole) | hfraction) | hexponent
  · split at hsign
    · exact .inr (.inl (List.mem_singleton.1 hsign))
    · cases hsign
  · exact hdigits _ hwhole
  · split at hfraction
    · cases hfraction
    · rcases List.mem_cons.1 hfraction with rfl | hfraction
      · exact .inr (.inr (.inr (.inl rfl)))
      · exact hdigits _ hfraction
  · cases hn : n.exponent with
    | none =>
      rw [hn] at hexponent
      cases hexponent
    | some e =>
      rw [hn] at hexponent
      rcases List.mem_cons.1 hexponent with rfl | hexponent
      · exact .inr (.inr (.inr (.inr rfl)))
      · rcases List.mem_append.1 hexponent with hsign | hdigit
        · split at hsign
          · exact .inr (.inl (List.mem_singleton.1 hsign))
          · split at hsign
            · exact .inr (.inr (.inl (List.mem_singleton.1 hsign)))
            · cases hsign
        · exact hdigits _ hdigit

theorem exists_chars_eq_cons (n : Numeral) (plus : Bool) :
    ∃ c cs, n.chars plus = c :: cs ∧ ((∃ d, c = Decimal.digitChar d) ∨ c = '-') := by
  unfold Numeral.chars Decimal.natChars
  obtain ⟨d, ds, hdigits⟩ := List.exists_cons_of_ne_nil (Decimal.digits_ne_nil n.whole)
  rw [hdigits]
  split
  · exact ⟨_, _, rfl, .inr rfl⟩
  · exact ⟨_, _, rfl, .inl ⟨d, rfl⟩⟩

/-- A digit or a minus between tokens starts a numeral. -/
theorem Lexer.begin?_charByte {c : Char} (h : (∃ d, c = Decimal.digitChar d) ∨ c = '-') (acc : List Token) :
    Lexer.begin? acc (charByte c) = some ⟨.numeral [charByte c], acc⟩ := by
  -- Such a character begins nothing else: it is no blank, no quote, no letter.
  have hbyte : ¬(asciiChar (charByte c) = ' ' ∨ asciiChar (charByte c) = '\n' ∨
        asciiChar (charByte c) = '\t' ∨ asciiChar (charByte c) = '\r') ∧
      asciiChar (charByte c) ≠ '"' ∧ isWordByte (charByte c) = false ∧
      (Decimal.isDigit (asciiChar (charByte c)) ∨ asciiChar (charByte c) = '-') := by
    rcases h with ⟨d, rfl⟩ | rfl
    · revert d
      decide
    · decide
  obtain ⟨hblank, hquote, hword, hstart⟩ := hbyte
  unfold Lexer.begin?
  simp only
  rw [if_neg hblank, if_neg hquote, hword, if_neg Bool.false_ne_true, if_pos hstart]

/-- The bytes of a numeral are collected. -/
theorem foldlM_numeral {cs : List Char} (h : ∀ c ∈ cs, IsNumeralChar c) (seen : Bytes) (acc : List Token) :
    (cs.map charByte).foldlM Lexer.step? ⟨.numeral seen, acc⟩ =
      some ⟨.numeral ((cs.map charByte).reverse ++ seen), acc⟩ := by
  induction cs generalizing seen with
  | nil => rfl
  | cons c rest ih =>
    obtain ⟨hc, hrest⟩ := List.forall_mem_cons.1 h
    have hstep : Lexer.step? ⟨.numeral seen, acc⟩ (charByte c) = some ⟨.numeral (charByte c :: seen), acc⟩ := by
      show (if isNumeralByte (charByte c) then _ else _) = _
      rw [if_pos hc.charByte.2]
    rw [List.map_cons, List.foldlM_cons, hstep]
    show (rest.map charByte).foldlM Lexer.step? _ = _
    rw [ih hrest, List.reverse_cons, List.append_assoc]
    rfl

theorem lexesOpen_numeralBytes (n : Numeral) : LexesOpen (numeralBytes n) [.number n] := by
  intro acc
  have hbytes : numeralBytes n = (n.chars true).map charByte := by
    unfold numeralBytes Utf8.ascii
    rw [String.toList_ofList]
    rfl
  have hall : ∀ c ∈ n.chars true, IsNumeralChar c := fun _ => isNumeralChar_of_mem
  obtain ⟨c, cs, hcons, hstart⟩ := exists_chars_eq_cons n true
  refine ⟨⟨.numeral ((n.chars true).map charByte).reverse, acc⟩, ?_, ?_⟩
  · rw [hcons] at hall
    rw [hbytes, hcons, List.map_cons, List.foldlM_cons]
    show (Lexer.begin? acc (charByte c)).bind _ = _
    rw [Lexer.begin?_charByte hstart, Option.bind_some,
      foldlM_numeral (List.forall_mem_cons.1 hall).2, List.reverse_cons]
  · -- At the end of the input the collected bytes are read as the numeral they came from.
    have hback : ((n.chars true).map charByte).map asciiChar = n.chars true := by
      rw [List.map_map]
      exact (List.map_congr_left fun c hc => (hall c hc).charByte.1).trans (List.map_id' _)
    show (Numeral.read? ((((n.chars true).map charByte).reverse.reverse).map asciiChar)).map _ = _
    rw [List.reverse_reverse, hback, Numeral.read?_chars]
    rfl

/-! ## String literals -/

/-- The bytes that the printer writes for a byte of a text are a piece that stands for this byte. -/
theorem foldlM_literalByte (b : UInt8) (seen : List StringPart) (acc : List Token) :
    ∃ part, (literalByte b).foldlM Lexer.step? ⟨.string seen, acc⟩ =
        some ⟨.string (part :: seen), acc⟩ ∧
      ∀ rest, StringPart.bytes? (part :: rest) = (StringPart.bytes? rest).map (b :: ·) := by
  unfold literalByte
  -- Seven bytes have an escape of two characters of their own.
  split
  · rename_i h
    exact ⟨.byte b, by rw [h]; rfl, fun _ => rfl⟩
  split
  · rename_i h
    exact ⟨.byte b, by rw [h]; rfl, fun _ => rfl⟩
  split
  · rename_i h
    exact ⟨.byte b, by rw [h]; rfl, fun _ => rfl⟩
  split
  · rename_i h
    exact ⟨.byte b, by rw [h]; rfl, fun _ => rfl⟩
  split
  · rename_i h
    exact ⟨.byte b, by rw [h]; rfl, fun _ => rfl⟩
  split
  · rename_i h
    exact ⟨.byte b, by rw [h]; rfl, fun _ => rfl⟩
  split
  · rename_i h
    exact ⟨.byte b, by rw [h]; rfl, fun _ => rfl⟩
  split
  · -- the other control characters are named by their number
    rename_i hcontrol
    have hlt : b.toNat < 32 := UInt8.lt_iff_toNat_lt.1 hcontrol
    -- Two digits of base 16 name the byte, and below 128 the scalar is encoded as this byte.
    have hhex : ∀ n : Fin 16, hexValue? (asciiChar (hexDigitByte n.val)) = some n.val := by decide
    have hscalar : ∀ n : Fin 32, StringPart.encodeScalar n.val = [UInt8.ofNat n.val] := by decide
    have hhigh := hhex ⟨b.toNat / 16, by omega⟩
    have hlow := hhex ⟨b.toNat % 16, by omega⟩
    refine ⟨.unit b.toNat, ?_, fun rest => ?_⟩
    · have hu : (Utf8.ascii "\\u00").foldlM Lexer.step? ⟨.string seen, acc⟩ =
          some ⟨.hex seen 2 0, acc⟩ := rfl
      have hfirst : Lexer.step? ⟨.hex seen 2 0, acc⟩ (hexDigitByte (b.toNat / 16)) =
          some ⟨.hex seen 1 (16 * 0 + b.toNat / 16), acc⟩ := by
        show (hexValue? (asciiChar (hexDigitByte (b.toNat / 16)))).map _ = _
        rw [hhigh]
        rfl
      have hsecond : Lexer.step? ⟨.hex seen 1 (16 * 0 + b.toNat / 16), acc⟩ (hexDigitByte (b.toNat % 16)) =
          some ⟨.string (.unit (16 * (16 * 0 + b.toNat / 16) + b.toNat % 16) :: seen), acc⟩ := by
        show (hexValue? (asciiChar (hexDigitByte (b.toNat % 16)))).map _ = _
        rw [hlow]
        rfl
      rw [List.foldlM_append, hu]
      show (Lexer.step? ⟨.hex seen 2 0, acc⟩ (hexDigitByte (b.toNat / 16))).bind _ = _
      rw [hfirst]
      show (Lexer.step? ⟨.hex seen 1 _, acc⟩ (hexDigitByte (b.toNat % 16))).bind _ = _
      rw [hsecond, show 16 * (16 * 0 + b.toNat / 16) + b.toNat % 16 = b.toNat by omega]
      rfl
    · have hscalar' := hscalar ⟨b.toNat, hlt⟩
      rw [StringPart.bytes?.eq_def]
      simp only
      rw [if_pos (.inl (by omega)), hscalar', UInt8.ofNat_toNat]
      rfl
  · rename_i hquote hslash _ _ _ _ _ hcontrol
    -- All other bytes stand for themselves: they are neither the quote nor the backslash.
    have hchar : ∀ b : BitVec 8, (asciiChar ⟨b⟩ = '"' → (⟨b⟩ : UInt8) = 0x22) ∧
        (asciiChar ⟨b⟩ = '\\' → (⟨b⟩ : UInt8) = 0x5C) := by decide
    refine ⟨.byte b, ?_, fun _ => rfl⟩
    show (Lexer.step? ⟨.string seen, acc⟩ b).bind _ = _
    unfold Lexer.step?
    simp only
    rw [if_neg fun h => hquote ((hchar b.toBitVec).1 h), if_neg fun h => hslash ((hchar b.toBitVec).2 h),
      if_neg hcontrol]
    rfl

/-- The bytes of a text are pieces that stand for them. -/
theorem foldlM_literalBytes (bs : Bytes) (seen : List StringPart) (acc : List Token) :
    ∃ parts, (bs.flatMap literalByte).foldlM Lexer.step? ⟨.string seen, acc⟩ =
        some ⟨.string (parts.reverse ++ seen), acc⟩ ∧ StringPart.bytes? parts = some bs := by
  induction bs generalizing seen with
  | nil => exact ⟨[], rfl, rfl⟩
  | cons b rest ih =>
    obtain ⟨part, hstep, hbytes⟩ := foldlM_literalByte b seen acc
    obtain ⟨parts, hsteps, hrest⟩ := ih (part :: seen)
    refine ⟨part :: parts, ?_, ?_⟩
    · rw [List.flatMap_cons, List.foldlM_append, hstep]
      show (rest.flatMap literalByte).foldlM Lexer.step? _ = _
      rw [hsteps, List.reverse_cons, List.append_assoc]
      rfl
    · rw [hbytes, hrest]
      rfl

/-- **The literal of a text is the token of this text.** -/
theorem lexes_literal (s : String) : Lexes (literal s) [.string (some s)] := by
  intro acc
  obtain ⟨parts, hsteps, hbytes⟩ := foldlM_literalBytes (Utf8.encode s) [] acc
  have hdecode : StringPart.decode? parts = some s := by
    unfold StringPart.decode?
    rw [hbytes, Option.bind_some, Utf8.decode?_encode]
  have hopen : Lexer.step? ⟨.between, acc⟩ 0x22 = some ⟨.string [], acc⟩ := rfl
  unfold literal
  rw [List.cons_append, List.foldlM_cons, hopen]
  show ((Utf8.encode s).flatMap literalByte ++ [0x22]).foldlM Lexer.step? _ = _
  rw [List.foldlM_append, hsteps, List.append_nil]
  show some (⟨.between, .string (StringPart.decode? parts.reverse.reverse) :: acc⟩ : Lexer) = _
  rw [List.reverse_reverse, hdecode]
  rfl

/-! ## Values -/

theorem lexesOpen_emptyArray : LexesOpen (Utf8.ascii "[]") [.beginArray, .endArray] :=
  Lexes.isOpen fun _ => rfl

theorem lexesOpen_emptyObject : LexesOpen (Utf8.ascii "\x7b\x7d") [.beginObject, .endObject] :=
  Lexes.isOpen fun _ => rfl

section

variable {style : Style} {level : Nat} {tail : Bytes} {ts : List Token}

/-- The items after the first, each with its comma, up to the end of the array. -/
theorem lexes_itemsBytes {items : List Json}
    (hitems : ∀ v ∈ items, LexesOpen (bytesAt style level v) v.tokens) (htail : Lexes tail ts)
    (hbreak : StartsBreak tail) :
    Lexes (itemsBytes style level false items ++ tail) (itemTokens false items ++ ts) ∧
      StartsBreak (itemsBytes style level false items ++ tail) := by
  induction items with
  | nil => exact ⟨htail, hbreak⟩
  | cons v rest ih =>
    obtain ⟨hv, hrest⟩ := List.forall_mem_cons.1 hitems
    obtain ⟨hlexes, hstarts⟩ := ih hrest
    -- The comma of the next item closes a word or numeral that is open, and so does the end of the array.
    refine ⟨?_, ⟨0x2C, _, rfl, by decide, by decide⟩⟩
    have hall := (lexes_comma.append (lexes_lineBreak style level)).append (hv.append hlexes hstarts)
    simp only [itemsBytes, itemTokens, Bool.false_eq_true, if_false, List.append_assoc, List.nil_append]
      at hall ⊢
    exact hall

/-- The members after the first, each with its comma, up to the end of the object. -/
theorem lexes_membersBytes {members : List (Option String × Json)}
    (hkeys : ∀ m ∈ members, ∃ key, m.1 = some key)
    (hvalues : ∀ m ∈ members, LexesOpen (bytesAt style level m.2) m.2.tokens) (htail : Lexes tail ts)
    (hbreak : StartsBreak tail) :
    Lexes (membersBytes style level false members ++ tail) (memberTokens false members ++ ts) ∧
      StartsBreak (membersBytes style level false members ++ tail) := by
  induction members with
  | nil => exact ⟨htail, hbreak⟩
  | cons m rest ih =>
    obtain ⟨key, v⟩ := m
    obtain ⟨⟨name, rfl⟩, hrestkeys⟩ := List.forall_mem_cons.1 hkeys
    obtain ⟨hv, hrest⟩ := List.forall_mem_cons.1 hvalues
    obtain ⟨hlexes, hstarts⟩ := ih hrestkeys hrest
    -- each member follows a comma and a line break, and then its key, a colon and its value
    refine ⟨?_, ⟨0x2C, _, rfl, by decide, by decide⟩⟩
    have hall := ((lexes_comma.append (lexes_lineBreak style level)).append
      ((lexes_literal name).append (lexes_colon style))).append (hv.append hlexes hstarts)
    simp only [membersBytes, memberTokens, Bool.false_eq_true, if_false, Option.getD_some, List.append_assoc,
      List.nil_append] at hall ⊢
    exact hall

end

/-- **The bytes of a value are its tokens.** -/
theorem lexesOpen_bytesAt (style : Style) {v : Json} (h : v.Spelled) :
    ∀ level, LexesOpen (bytesAt style level v) v.tokens := by
  induction h with
  | null =>
    intro level
    unfold bytesAt tokens
    exact lexesOpen_null
  | bool b =>
    intro level
    unfold bytesAt tokens
    exact lexesOpen_bool b
  | number n =>
    intro level
    unfold bytesAt tokens
    exact lexesOpen_numeralBytes n
  | string s =>
    intro level
    unfold bytesAt tokens
    exact (lexes_literal s).isOpen
  | @array items hitems ih =>
    intro level
    cases items with
    | nil =>
      simp only [bytesAt, tokens, itemTokens]
      exact lexesOpen_emptyArray
    | cons v rest =>
      obtain ⟨hv, hrest⟩ := List.forall_mem_cons.1 ih
      have hmark : Lexes [0x5D] [.endArray] := fun _ => rfl
      -- From the end: the mark, then the items after the first, then the first one and its bracket.
      have hend := (lexes_lineBreak style level).append hmark
      obtain ⟨hlexes, hstarts⟩ := lexes_itemsBytes (fun w hw => hrest w hw (level + 1)) hend
        (startsBreak_lineBreak style level ⟨0x5D, [], rfl, by decide, by decide⟩)
      have hbegin : Lexes [0x5B] [.beginArray] := fun _ => rfl
      have hall := (hbegin.append (lexes_lineBreak style (level + 1))).append
        ((hv (level + 1)).append hlexes hstarts)
      simp only [bytesAt, tokens, itemsBytes, itemTokens, List.isEmpty_cons, Bool.false_eq_true, if_false,
        if_true, List.nil_append, List.append_assoc, List.cons_append] at hall ⊢
      exact hall.isOpen
  | @object members hkeys _ ih =>
    intro level
    cases members with
    | nil =>
      simp only [bytesAt, tokens, memberTokens]
      exact lexesOpen_emptyObject
    | cons m rest =>
      obtain ⟨key, v⟩ := m
      obtain ⟨⟨name, rfl⟩, hrestkeys⟩ := List.forall_mem_cons.1 hkeys
      obtain ⟨hv, hrest⟩ := List.forall_mem_cons.1 ih
      have hmark : Lexes [0x7D] [.endObject] := fun _ => rfl
      have hend := (lexes_lineBreak style level).append hmark
      obtain ⟨hlexes, hstarts⟩ := lexes_membersBytes hrestkeys (fun w hw => hrest w hw (level + 1)) hend
        (startsBreak_lineBreak style level ⟨0x7D, [], rfl, by decide, by decide⟩)
      have hbegin : Lexes [0x7B] [.beginObject] := fun _ => rfl
      have hall := ((hbegin.append (lexes_lineBreak style (level + 1))).append
        ((lexes_literal name).append (lexes_colon style))).append ((hv (level + 1)).append hlexes hstarts)
      simp only [bytesAt, tokens, membersBytes, memberTokens, List.isEmpty_cons, Bool.false_eq_true, if_false,
        if_true, Option.getD_some, List.nil_append, List.append_assoc, List.cons_append] at hall ⊢
      exact hall.isOpen

theorem tokens?_bytes (style : Style) {v : Json} (h : v.Spelled) : tokens? (v.bytes style) = some v.tokens :=
  (lexesOpen_bytesAt style h 0).tokens?

end TableForest.Json
