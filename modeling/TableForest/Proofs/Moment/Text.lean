import TableForest.Moment.Text
import TableForest.Proofs.Number.Shortest
import TableForest.Proofs.Text.Blank

/-!
# Moments are read back

A moment whose leap second, if it is in one, is the last second of its minute is read back from its text.

## The architecture

* **`readNumber?_paddedChars`** reads a field of fixed width, whatever follows that is no digit.
* The date, the fraction and the time of day are read one after the other; each reader gives the rest of the
  text back.
* **`Moment.read?_text`** puts them together.
-/

namespace TableForest

open Decimal

/-! ## Blanks -/

namespace Text

/-- No digit is a blank. -/
theorem dropBlanks_map_digitChar {ds : List Digit} (h : ds ≠ []) (rest : List Char) :
    dropBlanks (ds.map digitChar ++ rest) = ds.map digitChar ++ rest := by
  have hblank : ∀ d : Digit, isBlank (digitChar d) = false := by decide
  obtain ⟨d, es, rfl⟩ := List.exists_cons_of_ne_nil h
  exact dropBlanks_cons (hblank d) _

end Text

namespace Moment

open Text

/-! ## Fields -/

/-- A field is read up to the first character that is no digit. -/
theorem readNumber?_map_digitChar {width : Nat} {ds : List Digit} (hne : ds ≠ []) (hlength : ds.length ≤ width)
    {rest : List Char} (hrest : StartsNoDigit rest) :
    readNumber? width (ds.map digitChar ++ rest) = some (ofDigits ds, rest) := by
  have hall : ∀ c ∈ ds.map digitChar, isDigit c = true := by
    intro c hc
    obtain ⟨d, -, rfl⟩ := List.mem_map.1 hc
    exact isDigit_digitChar d
  -- The field may be wider than the digits are many: what follows does not belong to it.
  have hend : ∀ k, (rest.take k).takeWhile isDigit = [] := by
    intro k
    cases k with
    | zero => rfl
    | succ k =>
      cases rest with
      | nil => rfl
      | cons c cs =>
        rw [List.take_succ_cons, List.takeWhile_cons, hrest c rfl, if_neg Bool.false_ne_true]
  have htake : ((ds.map digitChar ++ rest).take width).takeWhile isDigit = ds.map digitChar := by
    rw [List.take_append, List.take_of_length_le (by rw [List.length_map]; exact hlength),
      List.takeWhile_append_of_pos hall, hend, List.append_nil]
  unfold readNumber?
  simp only
  rw [htake, readNat?_map_digitChar hne, List.drop_left]
  rfl

theorem readNumber?_paddedChars {width n : Nat} (most : Nat) (hlength : (paddedChars width n).length ≤ most)
    {rest : List Char} (hrest : StartsNoDigit rest) :
    readNumber? most (paddedChars width n ++ rest) = some (n, rest) := by
  obtain ⟨ds, hds, hne, hvalue⟩ := exists_paddedChars width n
  rw [hds, List.length_map] at hlength
  rw [hds, readNumber?_map_digitChar hne hlength hrest, hvalue]

theorem readField?_paddedChars {n : Nat} (h : n < 100) {rest : List Char} (hrest : StartsNoDigit rest) :
    readField? (paddedChars 2 n ++ rest) = some (n, rest) := by
  have hlength : (paddedChars 2 n).length ≤ 2 := Nat.le_of_eq (length_paddedChars (by decide) h)
  have hblank : dropBlanks (paddedChars 2 n ++ rest) = paddedChars 2 n ++ rest := by
    obtain ⟨ds, hds, hne, -⟩ := exists_paddedChars 2 n
    rw [hds, dropBlanks_map_digitChar hne]
  unfold readField?
  rw [hblank, readNumber?_paddedChars 2 hlength hrest]

theorem readMark?_self (mark : Char) (h : isBlank mark = false) (rest : List Char) :
    readMark? mark (mark :: rest) = some rest := by
  unfold readMark?
  rw [dropBlanks_cons h]
  exact if_pos rfl

/-! ## Dates -/

/-- A year is read back, with or without a sign. -/
theorem readYear?_yearChars (year : Int) {rest : List Char} (hrest : StartsNoDigit rest) :
    readYear? (yearChars year ++ rest) = some (year, rest) := by
  unfold yearChars
  split
  · rename_i hyear
    have hlength : (paddedChars 4 year.toNat).length ≤ 4 :=
      Nat.le_of_eq (length_paddedChars (by decide) (by omega))
    have hread := readNumber?_paddedChars 4 hlength hrest
    obtain ⟨ds, hds, hne, -⟩ := exists_paddedChars 4 year.toNat
    -- The reader asks for a sign first, and a digit is none.
    have hsign := splitSign_map_digitChar ds rest hne
    rw [hds] at hread ⊢
    unfold readYear?
    rw [dropBlanks_map_digitChar hne]
    split
    · rename_i heq
      rw [heq] at hsign
      cases hsign
    · rename_i heq
      rw [heq] at hsign
      exact absurd (congrArg (fun p => p.2.length) hsign) (by simp [splitSign])
    · rw [hread, Option.map_some]
      simp only [Int.toNat_of_nonneg hyear.1]
  · rename_i hyear
    have hread : ∀ n, readNumber? (paddedChars 4 n ++ rest).length (paddedChars 4 n ++ rest) =
        some (n, rest) := by
      intro n
      exact readNumber?_paddedChars _ (by rw [List.length_append]; omega) hrest
    unfold readYear?
    by_cases hneg : year < 0
    · rw [if_pos hneg, List.cons_append, dropBlanks_cons (by decide)]
      simp only [hread, Option.map_some]
      rw [show -(year.natAbs : Int) = year by omega]
    · rw [if_neg hneg, List.cons_append, dropBlanks_cons (by decide)]
      simp only [hread, Option.map_some]
      rw [show (year.natAbs : Int) = year by omega]

theorem readDate?_append {d : Date} (hd : d.Valid) {rest : List Char} (hrest : StartsNoDigit rest) :
    readDate? (yearChars d.year ++ '-' :: (paddedChars 2 d.month ++ '-' :: (paddedChars 2 d.day ++ rest))) =
      some (d, rest) := by
  obtain ⟨-, -, -, hmonth, -, hday⟩ := hd
  -- Months and days have at most two digits.
  have hdays : Date.daysInMonth d.year d.month ≤ 31 := by
    unfold Date.daysInMonth
    split
    · split
      · decide
      · decide
    · split
      · decide
      · decide
  have hminus : ∀ cs, StartsNoDigit ('-' :: cs) := fun _ => startsNoDigit_cons (by decide)
  unfold readDate?
  rw [readYear?_yearChars d.year (hminus _)]
  simp only [bind, Option.bind_some, readMark?_self '-' (by decide)]
  rw [readField?_paddedChars (by omega) (hminus _)]
  simp only [Option.bind_some, readMark?_self '-' (by decide)]
  rw [readField?_paddedChars (by omega) hrest]
  rfl

/-! ## Times -/

/-- A group of digits behind a point is read as so many nanoseconds. -/
theorem readFraction?_paddedChars {width n : Nat} (hwidth : 0 < width) (hmost : width ≤ 9)
    (hn : n < 10 ^ width) {rest : List Char} (hrest : StartsNoDigit rest) :
    readFraction? ('.' :: (paddedChars width n ++ rest)) = some (n * 10 ^ (9 - width), rest) := by
  have hlength := length_paddedChars hwidth hn
  have hread := readNumber?_paddedChars 9 (by omega : (paddedChars width n).length ≤ 9) hrest
  have hdrop : rest.dropWhile isDigit = rest := by
    cases rest with
    | nil => rfl
    | cons c cs => rw [List.dropWhile_cons, hrest c rfl, if_neg Bool.false_ne_true]
  unfold readFraction?
  simp only [hread, Option.map_some, hdrop, List.length_append, hlength, Nat.add_sub_cancel]
  rfl

theorem readFraction?_fractionChars {nanos : Nat} (h : nanos < nanosPerSecond) {rest : List Char}
    (hrest : StartsNoDigit rest) (hpoint : rest.head? ≠ some '.') :
    readFraction? (fractionChars nanos ++ rest) = some (nanos, rest) := by
  unfold nanosPerSecond at h
  unfold fractionChars
  -- the shortest of none, three, six or nine digits that loses nothing
  split
  · rename_i hzero
    rw [List.nil_append, hzero]
    unfold readFraction?
    split
    · exact absurd rfl hpoint
    · rfl
  split
  · rw [List.cons_append, readFraction?_paddedChars (by decide) (by decide) (by omega) hrest]
    rw [show nanos / 1000000 * 10 ^ (9 - 3) = nanos by omega]
  split
  · rw [List.cons_append, readFraction?_paddedChars (by decide) (by decide) (by omega) hrest]
    rw [show nanos / 1000 * 10 ^ (9 - 6) = nanos by omega]
  · rw [List.cons_append, readFraction?_paddedChars (by decide) (by decide) (by omega) hrest]
    rw [show nanos * 10 ^ (9 - 9) = nanos by omega]

theorem startsNoDigit_fractionChars (nanos : Nat) {rest : List Char} (h : StartsNoDigit rest) :
    StartsNoDigit (fractionChars nanos ++ rest) := by
  unfold fractionChars
  split
  · exact h
  split
  · exact startsNoDigit_cons (by decide)
  split
  · exact startsNoDigit_cons (by decide)
  · exact startsNoDigit_cons (by decide)

/-- A time of day is read back; the second 60 is the second 59 with a second of nanoseconds more. -/
theorem readTime?_append (hour minute second nanos : Nat) (hhour : hour < 24) (hminute : minute < 60)
    (hsecond : second ≤ 60) (hnanos : nanos < nanosPerSecond) {rest : List Char}
    (hrest : StartsNoDigit rest) (hpoint : rest.head? ≠ some '.') :
    readTime? (paddedChars 2 hour ++ ':' :: (paddedChars 2 minute ++ ':' :: (paddedChars 2 second
        ++ (fractionChars nanos ++ rest)))) =
      some ((hour * 3600 + minute * 60 + (second - second / 60),
        nanos + second / 60 * nanosPerSecond), rest) := by
  -- behind two digits comes a colon, so no third is read
  have hcolon : ∀ cs, StartsNoDigit (':' :: cs) := fun _ => startsNoDigit_cons (by decide)
  unfold readTime?
  rw [readField?_paddedChars (by omega) (hcolon _)]
  simp only [bind, Option.bind_some, readMark?_self ':' (by decide)]
  rw [readField?_paddedChars (by omega) (hcolon _)]
  simp only [Option.bind_some, readMark?_self ':' (by decide)]
  rw [readField?_paddedChars (by omega) (startsNoDigit_fractionChars nanos hrest)]
  simp only [Option.bind_some, readFraction?_fractionChars hnanos hrest hpoint]
  rw [if_neg (by omega)]
  rfl

/-! ## Moments -/

/-- A leap second is the last second of its minute. -/
def IsRegular (m : Moment) : Prop :=
  nanosPerSecond ≤ m.nanos → m.second % 60 = 59

instance (m : Moment) : Decidable m.IsRegular :=
  inferInstanceAs (Decidable (_ → _))

/-- Clocks in UTC show a moment as it is. -/
theorem ofLocal?_zero (m : Moment) : ofLocal? m.date m.second m.nanos 0 = some m := by
  obtain ⟨-, hsecond, -⟩ := m.valid
  unfold secondsPerDay at hsecond
  have hparts : ofParts? m.date m.second m.nanos = some m := dif_pos m.valid
  unfold ofLocal?
  rw [Int.sub_zero]
  simp only
  rw [if_neg (by omega), if_neg (by unfold secondsPerDay; omega), Int.toNat_natCast, hparts]

/-- **A moment is read back from its text.** -/
theorem read?_text {m : Moment} (h : m.IsRegular) : read? (m.text .letter) = some m := by
  obtain ⟨hdate, hsecond, hnanos⟩ := m.valid
  unfold secondsPerDay at hsecond
  let leap := if nanosPerSecond ≤ m.nanos then 1 else 0
  -- In a leap second the seconds show 60 and the nanoseconds are what is left of them.
  have hleap : (leap = 0 ∧ m.nanos < nanosPerSecond) ∨
      (leap = 1 ∧ nanosPerSecond ≤ m.nanos ∧ m.second % 60 = 59) := by
    by_cases hbig : nanosPerSecond ≤ m.nanos
    · exact .inr ⟨if_pos hbig, hbig, h hbig⟩
    · exact .inl ⟨if_neg hbig, Nat.not_le.1 hbig⟩
  have hZ : StartsNoDigit ['Z'] := startsNoDigit_cons (by decide)
  have hT : ∀ cs, StartsNoDigit ('T' :: cs) := fun _ => startsNoDigit_cons (by decide)
  have hchars : m.chars .letter = yearChars m.date.year ++ '-' :: (paddedChars 2 m.date.month
      ++ '-' :: (paddedChars 2 m.date.day ++ 'T' :: (paddedChars 2 (m.second / 3600)
        ++ ':' :: (paddedChars 2 (m.second / 60 % 60) ++ ':' :: (paddedChars 2 (m.second % 60 + leap)
          ++ (fractionChars (m.nanos - leap * nanosPerSecond) ++ ['Z'])))))) := by
    unfold chars
    simp only [List.append_assoc, List.cons_append, leap]
  have htime := readTime?_append (m.second / 3600) (m.second / 60 % 60) (m.second % 60 + leap)
    (m.nanos - leap * nanosPerSecond) (by omega) (by omega) (by omega)
    (by rcases hleap with ⟨hl, hn⟩ | ⟨hl, hn, -⟩ <;> rw [hl] <;> omega) hZ (by decide)
  -- What is read of the time of day is the second of the day and its nanoseconds again.
  have hback : (m.second / 3600 * 3600 + m.second / 60 % 60 * 60
        + (m.second % 60 + leap - (m.second % 60 + leap) / 60),
      m.nanos - leap * nanosPerSecond + (m.second % 60 + leap) / 60 * nanosPerSecond) =
      (m.second, m.nanos) := by
    rcases hleap with ⟨hl, hn⟩ | ⟨hl, hn, h59⟩
    · rw [hl, show (m.second % 60 + 0) / 60 = 0 by omega]
      exact Prod.ext (by simp only; omega) (by simp only; omega)
    · rw [hl, show (m.second % 60 + 1) / 60 = 1 by omega]
      exact Prod.ext (by simp only; omega) (by simp only; omega)
  rw [hback] at htime
  unfold read? text
  rw [String.toList_ofList, hchars, readDate?_append hdate (hT _)]
  simp only [bind, Option.bind_some, htime]
  rw [dropBlanks_cons (by decide)]
  -- What is left are the letter of the zone and the way from the clock to the moment.
  have hzone : readZone? ['Z'] = some (0, []) := by decide
  rw [hzone]
  simp only [Option.bind_some]
  rw [if_pos (show (dropBlanks []).isEmpty = true from rfl), if_pos hdate]
  exact ofLocal?_zero m

end Moment
end TableForest
