import TableForest.Files.Path
import TableForest.Proofs.Text.Utf8

/-!
# Paths that are texts

What is shown of a path leads back to it exactly if the path is a text (**`Path.ofText_text_iff`**).  Paths that are
put together from texts are texts, and so are the paths above a text (**`Path.IsText.parent`**): slashes are
characters of their own, so what stands between them is text as well.
-/

namespace TableForest.Path

/-- The bytes of a path spell a text. -/
def IsText (p : Path) : Prop :=
  p.text?.isSome = true

instance (p : Path) : Decidable p.IsText :=
  inferInstanceAs (Decidable (_ = _))

@[simp] theorem text_ofText (s : String) : (ofText s).text = s :=
  Utf8.lossy_encode s

@[simp] theorem text?_ofText (s : String) : (ofText s).text? = some s :=
  Utf8.decode?_encode s

@[simp] theorem isText_ofText (s : String) : (ofText s).IsText :=
  congrArg Option.isSome (text?_ofText s)

theorem text?_eq_some_iff {p : Path} {s : String} : p.text? = some s ↔ p = ofText s := by
  obtain ⟨bytes⟩ := p
  rw [text?, Utf8.decode?_eq_some_iff, ofText, Path.mk.injEq, eq_comm]

theorem isText_iff {p : Path} : p.IsText ↔ ∃ s, p = ofText s := by
  rw [IsText, Option.isSome_iff_exists]
  exact exists_congr fun s => text?_eq_some_iff

/-- **What is shown of a path leads back to it exactly if it is a text.** -/
theorem ofText_text_iff {p : Path} : ofText p.text = p ↔ p.IsText := by
  rw [isText_iff]
  constructor
  · exact fun h => ⟨p.text, h.symm⟩
  · rintro ⟨s, rfl⟩
    rw [text_ofText]

theorem IsText.text?_eq {p : Path} (h : p.IsText) : p.text? = some p.text :=
  text?_eq_some_iff.2 (ofText_text_iff.2 h).symm

/-- A text behind a text is a text. -/
theorem IsText.join {base p : Path} (hbase : base.IsText) (hp : p.IsText) : (base.join p).IsText := by
  obtain ⟨s, rfl⟩ := isText_iff.1 hbase
  obtain ⟨t, rfl⟩ := isText_iff.1 hp
  unfold Path.join
  split
  · exact hp
  split
  · exact isText_iff.2 ⟨s ++ t, congrArg Path.mk (Utf8.encode_append s t).symm⟩
  · refine isText_iff.2 ⟨s ++ ("/" ++ t), congrArg Path.mk ?_⟩
    rw [Utf8.encode_append, Utf8.encode_append]
    rfl

/-! ## Paths above -/

/-- What stands between the slashes of a text is text. -/
theorem exists_text_of_mem_splitOn {s : String} {segment : Segment} (h : segment ∈ (Utf8.encode s).splitOn slash) :
    ∃ t, segment = Utf8.encode t := by
  generalize hbytes : Utf8.encode s = bs at h
  induction hlength : bs.length using Nat.strongRecOn generalizing s bs with
  | _ n ih =>
    by_cases hslash : slash ∈ bs
    · obtain ⟨front, rest, rfl, hfront⟩ := List.eq_append_cons_of_mem hslash
      obtain ⟨u, v, rfl, rfl⟩ := Utf8.texts_around_ascii (by decide) hbytes
      rw [List.splitOn_append_cons_self_of_not_mem hfront] at h
      rcases List.mem_cons.1 h with rfl | h
      · exact ⟨u, rfl⟩
      · refine ih _ ?_ _ rfl h rfl
        rw [← hlength, List.length_append, List.length_cons]
        omega
    · rw [List.splitOn_eq_singleton hslash, List.mem_singleton] at h
      exact ⟨s, h.trans hbytes.symm⟩

/-- Texts between slashes are a text. -/
theorem exists_text_of_intercalate {segments : List Segment} (h : ∀ s ∈ segments, ∃ t, s = Utf8.encode t) :
    ∃ t, [slash].intercalate segments = Utf8.encode t := by
  induction segments with
  | nil => exact ⟨"", rfl⟩
  | cons segment rest ih =>
    obtain ⟨⟨t, rfl⟩, hrest⟩ := List.forall_mem_cons.1 h
    obtain ⟨u, hu⟩ := ih hrest
    cases rest with
    | nil => exact ⟨t, by simp [List.intercalate]⟩
    | cons next rest =>
      refine ⟨t ++ ("/" ++ u), ?_⟩
      rw [List.intercalate_cons_cons, hu, Utf8.encode_append, Utf8.encode_append]
      exact List.append_assoc _ _ _

theorem mem_of_mem_remainders {segments reversed : List Segment} (h : reversed ∈ remainders segments) :
    ∀ s ∈ reversed, s ∈ segments := by
  induction segments with
  | nil => cases h
  | cons segment rest ih =>
    intro s hs
    rw [remainders] at h
    split at h
    · exact List.mem_cons_of_mem segment (ih h s hs)
    · rcases List.mem_cons.1 h with rfl | h
      · exact List.mem_cons_of_mem segment (List.dropWhile_sublist isIdle |>.subset hs)
      · exact List.mem_cons_of_mem segment (ih h s hs)

/-- The start of a text is a text, and so is what follows it. -/
theorem texts_of_start (s : String) : ∃ t u, start (Utf8.encode s) = Utf8.encode t ∧
    (Utf8.encode s).drop (start (Utf8.encode s)).length = Utf8.encode u := by
  generalize hbytes : Utf8.encode s = bs
  unfold start
  split
  · exact ⟨".", "", rfl, rfl⟩
  · rename_i rest
    have hdot : Utf8.encode s = [] ++ 0x2E :: 0x2F :: rest := hbytes
    obtain ⟨-, u, -, hu⟩ := Utf8.texts_around_ascii (by decide) hdot
    exact ⟨".", u, rfl, hu⟩
  · rename_i rest
    have hslash : Utf8.encode s = [] ++ slash :: rest := hbytes
    obtain ⟨-, u, -, hu⟩ := Utf8.texts_around_ascii (by decide) hslash
    exact ⟨"/", u, rfl, hu⟩
  · exact ⟨"", s, rfl, hbytes.symm⟩

/-- **The path above a text is a text.** -/
theorem IsText.parent {p dir : Path} (hp : p.IsText) (h : p.parent? = some dir) : dir.IsText := by
  obtain ⟨s, rfl⟩ := isText_iff.1 hp
  obtain ⟨t, u, hstart, hrest⟩ := texts_of_start s
  have hmem := List.mem_of_mem_head? h
  rw [parents, List.mem_append] at hmem
  rcases hmem with hmem | hmem
  · obtain ⟨reversed, hreversed, rfl⟩ := List.mem_map.1 hmem
    have hsegments : ∀ segment ∈ reversed.reverse, ∃ t, segment = Utf8.encode t := by
      intro segment hsegment
      have hin := mem_of_mem_remainders hreversed segment (List.mem_reverse.1 hsegment)
      rw [segmentsReversed, List.mem_reverse, show (ofText s).bytes = Utf8.encode s from rfl, hrest] at hin
      exact exists_text_of_mem_splitOn hin
    obtain ⟨v, hv⟩ := exists_text_of_intercalate hsegments
    refine isText_iff.2 ⟨t ++ v, congrArg Path.mk ?_⟩
    rw [hv, show (ofText s).bytes = Utf8.encode s from rfl, hstart, Utf8.encode_append]
  · -- above a dot of its own there is the empty path
    split at hmem
    · obtain rfl := List.mem_singleton.1 hmem
      exact isText_ofText ""
    · cases hmem

end TableForest.Path
