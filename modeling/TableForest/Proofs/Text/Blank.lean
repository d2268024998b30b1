import Mathlib.Data.List.TakeWhile
import TableForest.Text.Blank

/-!
# Texts without the blanks around them

Blanks are taken away at both ends of a text and nowhere else.  `Text.Trimmed` says so without the trimming, and what
it says determines what is left (**`Trimmed.trimBlanks_eq`**).
-/

namespace TableForest.Text

/-- A text is another one without the blanks around it: what is left neither starts nor ends with a blank. -/
structure Trimmed (cs rest : List Char) : Prop where
  around : ∃ front back, cs = front ++ (rest ++ back) ∧ (∀ c ∈ front, isBlank c = true) ∧
    ∀ c ∈ back, isBlank c = true
  first : ∀ c, rest.head? = some c → isBlank c = false
  last : ∀ c, rest.getLast? = some c → isBlank c = false

/-! ## Blanks in front -/

theorem dropBlanks_cons {c : Char} (h : isBlank c = false) (cs : List Char) :
    dropBlanks (c :: cs) = c :: cs := by
  unfold dropBlanks
  rw [List.dropWhile_cons, h, if_neg Bool.false_ne_true]

theorem dropBlanks_append {front : List Char} (h : ∀ c ∈ front, isBlank c = true) (cs : List Char) :
    dropBlanks (front ++ cs) = dropBlanks cs :=
  List.dropWhile_append_of_pos h

theorem dropBlanks_eq_nil {cs : List Char} (h : ∀ c ∈ cs, isBlank c = true) : dropBlanks cs = [] :=
  List.dropWhile_eq_nil_iff.2 h

/-- Only blanks are dropped. -/
theorem exists_dropBlanks (cs : List Char) : ∃ front, cs = front ++ dropBlanks cs ∧ ∀ c ∈ front, isBlank c = true :=
  ⟨cs.takeWhile isBlank, List.takeWhile_append_dropWhile.symm, fun _ hc => List.mem_takeWhile_imp hc⟩

/-- What is left does not start with a blank. -/
theorem head?_dropBlanks (cs : List Char) {c : Char} (h : (dropBlanks cs).head? = some c) : isBlank c = false := by
  have hhead := List.head?_dropWhile_not isBlank cs
  unfold dropBlanks at h
  rw [h] at hhead
  simpa using hhead

/-- A text that does not start with a blank stays as it is. -/
theorem dropBlanks_eq_self {cs : List Char} (h : ∀ c, cs.head? = some c → isBlank c = false) : dropBlanks cs = cs := by
  cases cs with
  | nil => rfl
  | cons c rest => exact dropBlanks_cons (h c rfl) rest

/-! ## Blanks at both ends -/

/-- Blanks at the ends make no difference. -/
theorem trimBlanks_of_blanks {front back : List Char} (hfront : ∀ c ∈ front, isBlank c = true)
    (hback : ∀ c ∈ back, isBlank c = true) (cs : List Char) :
    trimBlanks (front ++ (cs ++ back)) = trimBlanks cs := by
  have hreverse : ∀ c ∈ back.reverse, isBlank c = true := fun c hc => hback c (List.mem_reverse.1 hc)
  unfold trimBlanks
  rw [dropBlanks_append hfront]
  by_cases hcs : dropBlanks cs = []
  · -- there is nothing but blanks
    have hall := List.dropWhile_eq_nil_iff.1 hcs
    rw [dropBlanks_append hall, dropBlanks_eq_nil hback, hcs]
  · have happend : dropBlanks (cs ++ back) = dropBlanks cs ++ back := by
      unfold dropBlanks at hcs ⊢
      rw [List.dropWhile_append, if_neg (by simpa using hcs)]
    rw [happend, List.reverse_append, dropBlanks_append hreverse]

/-- **What is left does not depend on how it is found.** -/
theorem Trimmed.trimBlanks_eq {cs rest : List Char} (h : Trimmed cs rest) : trimBlanks cs = rest := by
  obtain ⟨⟨front, back, rfl, hfront, hback⟩, hfirst, hlast⟩ := h
  have hreverse : ∀ c, rest.reverse.head? = some c → isBlank c = false := by
    intro c hc
    rw [List.head?_reverse] at hc
    exact hlast c hc
  rw [trimBlanks_of_blanks hfront hback, trimBlanks, dropBlanks_eq_self hfirst, dropBlanks_eq_self hreverse,
    List.reverse_reverse]

/-- **Trimming takes the blanks around a text away.** -/
theorem trimmed_trimBlanks (cs : List Char) : Trimmed cs (trimBlanks cs) := by
  obtain ⟨front, hcs, hfront⟩ := exists_dropBlanks cs
  obtain ⟨back, hrest, hback⟩ := exists_dropBlanks (dropBlanks cs).reverse
  have hsplit : dropBlanks cs = trimBlanks cs ++ back.reverse := by
    unfold trimBlanks
    rw [← List.reverse_append, ← hrest, List.reverse_reverse]
  have haround : ∀ c ∈ back.reverse, isBlank c = true := fun c hc => hback c (List.mem_reverse.1 hc)
  refine ⟨⟨front, back.reverse, ?_, hfront, haround⟩, fun c hc => ?_, fun c hc => ?_⟩
  · rw [← hsplit]
    exact hcs
  · -- the first character is left of the front already
    refine head?_dropBlanks cs ?_
    rw [hsplit, List.head?_append, hc]
    rfl
  · refine head?_dropBlanks (dropBlanks cs).reverse ?_
    rw [← List.getLast?_reverse]
    exact hc

end TableForest.Text
