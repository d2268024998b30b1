import Mathlib.Computability.RegularExpressions
import TableForest.Cell.Error
import TableForest.Proofs.Text.Blank

/-!
# Which texts are subtypes

A text is a subtype if it has the form of one once the blanks around it are taken away.  The form is said twice, as a
grammar and as a regular expression, and the reader accepts what either of them does.

## The architecture

* **`Tag.Form`** is the grammar and **`Tag.pattern`** the regular expression; **`mem_pattern`** compares them.
* **`isWellFormed_iff`**: what the reader checks is the grammar.  No blank is part of it (**`Form.isBlank_eq_false`**).
* **`parsed_by_form`** settles what is read of every text.
-/

namespace TableForest.Tag

/-! ## The grammar -/

/-- An ASCII letter or digit. -/
def IsLetterOrDigit (c : Char) : Prop :=
  ('A' ≤ c ∧ c ≤ 'Z') ∨ ('a' ≤ c ∧ c ≤ 'z') ∨ ('0' ≤ c ∧ c ≤ '9')

/-- What may stand in a name besides letters and digits, though not in front. -/
def marks : List Char := ['!', '#', '$', '&', '^', '_', '.', '+', '-']

/-- A letter or digit, and behind it letters, digits and marks. -/
inductive Name : List Char → Prop
  | intro {c : Char} {cs : List Char} (first : IsLetterOrDigit c) (rest : ∀ d ∈ cs, IsLetterOrDigit d ∨ d ∈ marks) :
      Name (c :: cs)

/-- The form of a subtype: the wildcard, a name, or a name with a second name or the wildcard behind a slash. -/
inductive Form : List Char → Prop
  | wildcard : Form ['*']
  | name {cs : List Char} (name : Name cs) : Form cs
  | pair {cs ds : List Char} (first : Name cs) (second : Name ds) : Form (cs ++ '/' :: ds)
  | family {cs : List Char} (first : Name cs) : Form (cs ++ ['/', '*'])

theorem isNameStart_iff {c : Char} : isNameStart c = true ↔ IsLetterOrDigit c := by
  unfold isNameStart IsLetterOrDigit Char.isAlphanum Char.isAlpha Char.isUpper Char.isLower Char.isDigit
  simp only [Bool.or_eq_true, Bool.and_eq_true, decide_eq_true_eq, or_assoc]
  rfl

theorem isNameChar_iff {c : Char} : isNameChar c = true ↔ IsLetterOrDigit c ∨ c ∈ marks := by
  unfold isNameChar
  rw [Bool.or_eq_true, isNameStart_iff, decide_eq_true_eq]
  rfl

theorem isName_iff {cs : List Char} : isName cs = true ↔ Name cs := by
  cases cs with
  | nil => exact iff_of_false Bool.false_ne_true nofun
  | cons c rest =>
    unfold isName
    rw [Bool.and_eq_true, isNameStart_iff, List.all_eq_true]
    constructor
    · rintro ⟨hfirst, hrest⟩
      exact .intro hfirst fun d hd => isNameChar_iff.1 (hrest d hd)
    · rintro ⟨hfirst, hrest⟩
      exact ⟨hfirst, fun d hd => isNameChar_iff.2 (hrest d hd)⟩

/-- What is no character of a name does not stand in one. -/
theorem Name.not_mem {cs : List Char} (h : Name cs) {c : Char} (hc : isNameChar c = false) : c ∉ cs := by
  intro hmem
  have hname : isNameChar c = true := by
    cases h with
    | intro hfirst hrest =>
      rcases List.mem_cons.1 hmem with rfl | hmem
      · exact isNameChar_iff.2 (.inl hfirst)
      · exact isNameChar_iff.2 (hrest c hmem)
  rw [hc] at hname
  cases hname

/-! ## What the reader checks -/

theorem span_slash_of_not_mem {cs : List Char} (h : '/' ∉ cs) : cs.span (· != '/') = (cs, []) := by
  have hall : ∀ c ∈ cs, (c != '/') = true := fun c hc => bne_iff_ne.2 fun heq => h (heq ▸ hc)
  rw [List.span_eq_takeWhile_dropWhile, List.takeWhile_eq_self_iff.2 hall, List.dropWhile_eq_nil_iff.2 hall]

theorem span_slash_append {first : List Char} (h : '/' ∉ first) (rest : List Char) :
    (first ++ '/' :: rest).span (· != '/') = (first, '/' :: rest) := by
  have hall : ∀ c ∈ first, (c != '/') = true := fun c hc => bne_iff_ne.2 fun heq => h (heq ▸ hc)
  rw [List.span_eq_takeWhile_dropWhile, List.takeWhile_append_of_pos hall, List.dropWhile_append_of_pos hall]
  simp

/-- A text is taken apart at its first slash. -/
theorem eq_append_of_span_slash {cs first second : List Char} {c : Char}
    (h : cs.span (· != '/') = (first, c :: second)) :
    cs = first ++ '/' :: second := by
  rw [List.span_eq_takeWhile_dropWhile] at h
  obtain ⟨hfirst, hrest⟩ := Prod.mk.inj h
  have hhead := List.head?_dropWhile_not (· != '/') cs
  rw [hrest] at hhead
  obtain rfl : c = '/' := by simpa using hhead
  rw [← hfirst, ← hrest, List.takeWhile_append_dropWhile]

/-- **The reader accepts the form of a subtype.** -/
theorem isWellFormed_iff {cs : List Char} : isWellFormed cs = true ↔ Form cs := by
  have hslash : isNameChar '/' = false := by decide
  unfold isWellFormed
  rw [Bool.or_eq_true, beq_iff_eq]
  constructor
  -- the slash parts the text, and what is in front of it has none
  · rintro (rfl | h)
    · exact .wildcard
    · split at h
      · rename_i first hspan
        rw [List.span_eq_takeWhile_dropWhile] at hspan
        obtain ⟨hfirst, hrest⟩ := Prod.mk.inj hspan
        have hall : cs = first := by
          -- without a slash the whole text is the name
          rw [← List.takeWhile_append_dropWhile (p := (· != '/')) (l := cs), hfirst, hrest, List.append_nil]
        rw [hall]
        exact .name (isName_iff.1 h)
      · rename_i first c second hspan
        rw [eq_append_of_span_slash hspan]
        rw [Bool.and_eq_true, Bool.or_eq_true, beq_iff_eq] at h
        obtain ⟨hfirst, rfl | hsecond⟩ := h
        · exact .family (isName_iff.1 hfirst)
        · exact .pair (isName_iff.1 hfirst) (isName_iff.1 hsecond)
  · intro h
    cases h with
    | wildcard => exact .inl rfl
    | name hfirst =>
      right
      rw [span_slash_of_not_mem (hfirst.not_mem hslash)]
      exact isName_iff.2 hfirst
    | pair hfirst hsecond =>
      right
      rw [span_slash_append (hfirst.not_mem hslash)]
      simp only [isName_iff.2 hfirst, isName_iff.2 hsecond, Bool.or_true, Bool.and_true]
    | family hfirst =>
      right
      rw [span_slash_append (hfirst.not_mem hslash)]
      simp only [isName_iff.2 hfirst, beq_self_eq_true, Bool.true_or, Bool.and_true]

instance (cs : List Char) : Decidable (Form cs) :=
  decidable_of_iff (isWellFormed cs = true) isWellFormed_iff

example : Form "image/svg+xml".toList ∧ ¬Form "*/png".toList ∧ ¬Form "a/b/c".toList := by decide

/-! ## The pattern -/

open RegularExpression (char)

/-- The characters from one to another. -/
def charRange (first last : Char) : List Char :=
  (List.range' first.toNat (last.toNat + 1 - first.toNat)).map Char.ofNat

/-- One of some characters. -/
def oneOf : List Char → RegularExpression Char
  | [] => 0
  | c :: cs => char c + oneOf cs

/-- `A-Za-z0-9`. -/
def lettersAndDigits : List Char :=
  charRange 'A' 'Z' ++ charRange 'a' 'z' ++ charRange '0' '9'

/-- `[A-Za-z0-9][A-Za-z0-9!#$&^_.+-]*`. -/
def namePattern : RegularExpression Char :=
  oneOf lettersAndDigits * (oneOf (lettersAndDigits ++ marks)).star

/-- A subtype as a whole: `\*|name(/(name|\*))?`. -/
def pattern : RegularExpression Char :=
  char '*' + namePattern * (1 + char '/' * (namePattern + char '*'))

theorem mem_charRange {first last c : Char} (hlast : last.toNat < 0xd800) :
    c ∈ charRange first last ↔ first ≤ c ∧ c ≤ last := by
  show c ∈ charRange first last ↔ first.toNat ≤ c.toNat ∧ c.toNat ≤ last.toNat
  unfold charRange
  rw [List.mem_map]
  constructor
  · rintro ⟨n, hn, rfl⟩
    rw [List.mem_range'_1] at hn
    have hvalid : n.isValidChar := .inl (by omega)
    have htoNat : (Char.ofNat n).toNat = n := by
      unfold Char.ofNat
      rw [dif_pos hvalid]
      rfl
    omega
  · rintro ⟨hlow, hhigh⟩
    refine ⟨c.toNat, List.mem_range'_1.2 (by omega), Char.ofNat_toNat c⟩

theorem mem_lettersAndDigits {c : Char} : c ∈ lettersAndDigits ↔ IsLetterOrDigit c := by
  unfold lettersAndDigits IsLetterOrDigit
  rw [List.mem_append, List.mem_append, mem_charRange (by decide), mem_charRange (by decide),
    mem_charRange (by decide), or_assoc]

theorem mem_oneOf {cs w : List Char} : w ∈ (oneOf cs).matches' ↔ ∃ c ∈ cs, w = [c] := by
  induction cs with
  | nil => exact iff_of_false (Language.notMem_zero w) (by simp)
  | cons c rest ih =>
    show w ∈ (char c).matches' + (oneOf rest).matches' ↔ _
    rw [Language.mem_add, ih]
    simp only [List.mem_cons, exists_eq_or_imp]
    rfl

theorem mem_star_oneOf {cs w : List Char} : w ∈ (oneOf cs).star.matches' ↔ ∀ c ∈ w, c ∈ cs := by
  rw [RegularExpression.matches'_star, Language.mem_kstar]
  constructor
  · rintro ⟨parts, rfl, hparts⟩ c hc
    obtain ⟨part, hpart, hc⟩ := List.mem_flatten.1 hc
    obtain ⟨d, hd, rfl⟩ := mem_oneOf.1 (hparts part hpart)
    rwa [List.mem_singleton.1 hc]
  · intro h
    refine ⟨w.map fun c => [c], ?_, fun part hpart => ?_⟩
    · rw [← List.flatMap_def, List.flatMap_singleton']
    obtain ⟨c, hc, rfl⟩ := List.mem_map.1 hpart
    exact mem_oneOf.2 ⟨c, h c hc, rfl⟩

theorem mem_namePattern {w : List Char} : w ∈ namePattern.matches' ↔ Name w := by
  have hmore : ∀ d, d ∈ lettersAndDigits ++ marks ↔ IsLetterOrDigit d ∨ d ∈ marks := by
    intro d
    rw [List.mem_append, mem_lettersAndDigits]
  unfold namePattern
  rw [RegularExpression.matches'_mul, Language.mem_mul]
  constructor
  · rintro ⟨first, hfirst, rest, hrest, rfl⟩
    obtain ⟨c, hc, rfl⟩ := mem_oneOf.1 hfirst
    exact .intro (mem_lettersAndDigits.1 hc) fun d hd => (hmore d).1 (mem_star_oneOf.1 hrest d hd)
  · rintro ⟨hfirst, hrest⟩
    exact ⟨_, mem_oneOf.2 ⟨_, mem_lettersAndDigits.2 hfirst, rfl⟩, _,
      mem_star_oneOf.2 fun d hd => (hmore d).2 (hrest d hd), rfl⟩

/-- **The pattern and the grammar describe the same texts.** -/
theorem mem_pattern {w : List Char} : w ∈ pattern.matches' ↔ Form w := by
  have hstar : ∀ w, w ∈ (char '*').matches' ↔ w = ['*'] := fun w => Iff.rfl
  have hslash : ∀ w, w ∈ (char '/').matches' ↔ w = ['/'] := fun w => Iff.rfl
  unfold pattern
  rw [RegularExpression.matches'_add, RegularExpression.matches'_mul, RegularExpression.matches'_add,
    RegularExpression.matches'_mul, RegularExpression.matches'_add, Language.mem_add, hstar, Language.mem_mul]
  constructor
  · rintro (rfl | ⟨first, hfirst, rest, hrest, rfl⟩)
    · exact .wildcard
    have hname := mem_namePattern.1 hfirst
    rcases (Language.mem_add _ _ rest).1 hrest with hnone | hmore
    · obtain rfl := (Language.mem_one rest).1 hnone
      rw [List.append_nil]
      exact .name hname
    obtain ⟨slash, hs, second, hsecond, rfl⟩ := Language.mem_mul.1 hmore
    obtain rfl := (hslash slash).1 hs
    rcases (Language.mem_add _ _ second).1 hsecond with hsecond | hsecond
    · exact .pair hname (mem_namePattern.1 hsecond)
    · obtain rfl := (hstar second).1 hsecond
      exact .family hname
  · intro h
    -- behind the slash stands what the last alternative of the pattern describes
    have hbehind : ∀ {second : List Char}, Name second ∨ second = ['*'] →
        '/' :: second ∈ (1 : RegularExpression Char).matches' + (char '/').matches' *
          (namePattern.matches' + (char '*').matches') := by
      intro second hsecond
      refine (Language.mem_add _ _ _).2 (.inr (Language.mem_mul.2 ⟨['/'], rfl, second, ?_, rfl⟩))
      exact (Language.mem_add _ _ second).2 (hsecond.imp mem_namePattern.2 id)
    cases h with
    | wildcard => exact .inl rfl
    | name hfirst =>
      exact .inr ⟨_, mem_namePattern.2 hfirst, [], (Language.mem_add _ _ []).2 (.inl Language.nil_mem_one),
        List.append_nil _⟩
    | pair hfirst hsecond => exact .inr ⟨_, mem_namePattern.2 hfirst, _, hbehind (.inl hsecond), rfl⟩
    | family hfirst => exact .inr ⟨_, mem_namePattern.2 hfirst, _, hbehind (.inr rfl), rfl⟩

/-! ## Reading -/

/-- No blank is a character of a name. -/
theorem isBlank_of_isNameChar {c : Char} (h : isNameChar c = true) : Text.isBlank c = false := by
  have hcode : c.toNat ≤ 0x7E ∧ 0x21 ≤ c.toNat := by
    rcases isNameChar_iff.1 h with hletter | hmark
    · have hval : ∀ a b : Char, a ≤ b ↔ a.toNat ≤ b.toNat := fun a b => Iff.rfl
      unfold IsLetterOrDigit at hletter
      simp only [hval, Char.reduceToNat] at hletter
      omega
    · have hmarks : (marks.all fun d => d.toNat ≤ 0x7E && 0x21 ≤ d.toNat) = true := by decide
      simpa using List.all_eq_true.1 hmarks c hmark
  unfold Text.isBlank
  simp only [Bool.or_eq_false_iff, Bool.and_eq_false_iff, decide_eq_false_iff_not, beq_eq_false_iff_ne]
  omega

theorem Name.isBlank_eq_false {cs : List Char} (h : Name cs) : ∀ c ∈ cs, Text.isBlank c = false := by
  cases h with
  | intro hfirst hrest =>
    exact List.forall_mem_cons.2 ⟨isBlank_of_isNameChar (isNameChar_iff.2 (.inl hfirst)),
      fun d hd => isBlank_of_isNameChar (isNameChar_iff.2 (hrest d hd))⟩

/-- **There is no blank in a subtype.** -/
theorem Form.isBlank_eq_false {cs : List Char} (h : Form cs) : ∀ c ∈ cs, Text.isBlank c = false := by
  have hslash : Text.isBlank '/' = false := by decide
  have hstar : Text.isBlank '*' = false := by decide
  cases h with
  | wildcard => exact List.forall_mem_singleton.2 hstar
  | name hfirst => exact hfirst.isBlank_eq_false
  | pair hfirst hsecond =>
    exact List.forall_mem_append.2 ⟨hfirst.isBlank_eq_false,
      List.forall_mem_cons.2 ⟨hslash, hsecond.isBlank_eq_false⟩⟩
  | family hfirst =>
    exact List.forall_mem_append.2 ⟨hfirst.isBlank_eq_false,
      List.forall_mem_cons.2 ⟨hslash, List.forall_mem_singleton.2 hstar⟩⟩

/-- A text without blanks is trimmed already. -/
theorem trim_of_isBlank_eq_false {s : String} (h : ∀ c ∈ s.toList, Text.isBlank c = false) : Text.trim s = s := by
  have htrimmed : Text.Trimmed s.toList s.toList :=
    ⟨⟨[], [], by simp⟩, fun c hc => h c (List.mem_of_mem_head? hc), fun c hc => h c (List.mem_of_getLast? hc)⟩
  unfold Text.trim
  rw [htrimmed.trimBlanks_eq, String.ofList_toList]

theorem parse_of_form {s : String} (h : Form (Text.trim s).toList) : Tag.parse s = .ok ⟨Text.trim s⟩ := by
  unfold Tag.parse read?
  rw [if_pos (isWellFormed_iff.2 h)]

theorem parse_of_not_form {s : String} (h : ¬Form (Text.trim s).toList) :
    Tag.parse s = .error (.invalidSubtype (Text.trim s)) := by
  unfold Tag.parse read?
  rw [if_neg (mt isWellFormed_iff.1 h)]

/-- The text of a tag is read as the tag itself. -/
def ReadsAsItself (tag : Tag) : Prop :=
  Tag.parse tag.text = .ok tag

/-- **The tags that are read as themselves are those of the form of a subtype.** -/
theorem readsAsItself_iff {tag : Tag} : tag.ReadsAsItself ↔ Form tag.text.toList := by
  constructor
  · intro h
    by_cases hform : Form (Text.trim tag.text).toList
    · have hself : (⟨Text.trim tag.text⟩ : Tag) = tag := Except.ok.inj ((parse_of_form hform).symm.trans h)
      rw [← hself]
      exact hform
    · cases (parse_of_not_form hform).symm.trans h
  · intro h
    have htrim := trim_of_isBlank_eq_false h.isBlank_eq_false
    have hparse := parse_of_form (s := tag.text) (by rw [htrim]; exact h)
    rw [htrim] at hparse
    exact hparse

/-- **What is read of a text**: if the text has the form of a subtype once the blanks around it are taken away, it is
read as what is left, which is described by the pattern as well, has no blank in it and is read as itself; and every
other text is refused. -/
theorem parsed_by_form (s : String) :
    Text.Trimmed s.toList (Text.trim s).toList ∧
      ((Text.trim s).toList ∈ pattern.matches' ↔ Form (Text.trim s).toList) ∧
      ((∃ tag, Tag.parse s = .ok tag) ↔ Form (Text.trim s).toList) ∧
      (∀ tag, Tag.parse s = .ok tag → tag.text = Text.trim s ∧ (∀ c ∈ tag.text.toList, Text.isBlank c = false) ∧
        tag.ReadsAsItself) ∧
      ∀ e, Tag.parse s = .error e → e = .invalidSubtype (Text.trim s) := by
  have htrimmed : Text.Trimmed s.toList (Text.trim s).toList := by
    unfold Text.trim
    rw [String.toList_ofList]
    exact Text.trimmed_trimBlanks s.toList
  refine ⟨htrimmed, mem_pattern, ?_⟩
  -- the reader decides, and either answer settles all that is claimed
  by_cases hform : Form (Text.trim s).toList
  · have hparse := parse_of_form hform
    refine ⟨iff_of_true ⟨_, hparse⟩ hform, fun tag htag => ?_, fun e he => ?_⟩
    · obtain rfl := Except.ok.inj (hparse.symm.trans htag)
      exact ⟨rfl, hform.isBlank_eq_false, readsAsItself_iff.2 hform⟩
    · cases hparse.symm.trans he
  · have hparse := parse_of_not_form hform
    refine ⟨iff_of_false ?_ hform, fun tag htag => ?_, fun e he => ?_⟩
    · rintro ⟨tag, htag⟩
      cases hparse.symm.trans htag
    · cases hparse.symm.trans htag
    · exact (Except.error.inj (hparse.symm.trans he)).symm

/-- A subtype between blanks that are none of ASCII, and a text with a blank in the middle. -/
theorem plain_text_parsed :
    Tag.parse "\u3000text/plain\u00A0" = .ok ⟨"text/plain"⟩ ∧ (⟨"text/plain"⟩ : Tag).ReadsAsItself ∧
      Tag.parse "a b" = .error (.invalidSubtype "a b") ∧ ¬Form "a b".toList := by
  have hplain : Tag.parse "\u3000text/plain\u00A0" = .ok ⟨"text/plain"⟩ := by decide +kernel
  have hbroken : Tag.parse "a b" = .error (.invalidSubtype "a b") := by decide +kernel
  obtain ⟨-, -, -, hread, -⟩ := parsed_by_form "\u3000text/plain\u00A0"
  obtain ⟨-, -, hbroken_iff, -, -⟩ := parsed_by_form "a b"
  have htrim : Text.trim "a b" = "a b" := by decide +kernel
  refine ⟨hplain, (hread _ hplain).2.2, hbroken, fun hform => ?_⟩
  rw [← htrim] at hform
  obtain ⟨tag, htag⟩ := hbroken_iff.2 hform
  cases hbroken.symm.trans htag

end TableForest.Tag
