import TableForest.Proofs.Files.FileSystem
import TableForest.Proofs.Table.Links

/-!
# Paths that differ at their ends

The links of a column differ in what follows the last slash, and so do the paths that they are resolved to.  Such
paths start in the same place and lead through the same names up to the last (**`Path.Siblings`**), and either all
of them are anchored or none is (**`anchored_of_siblings`**).
-/

namespace TableForest

/-- Two paths differ in what follows the last slash at most, and something follows it in both. -/
inductive Path.Siblings (p q : Path) : Prop
  | intro (front s t : Bytes) (left : p.bytes = front ++ s) (right : q.bytes = front ++ t)
      (leftNe : s ≠ []) (rightNe : t ≠ []) (leftName : Path.slash ∉ s) (rightName : Path.slash ∉ t)

namespace Path.Siblings

variable {p q : Path}

theorem isAbsolute_eq (h : p.Siblings q) : p.isAbsolute = q.isAbsolute := by
  obtain ⟨front, s, t, hp, hq, -, -, hleft, hright⟩ := h
  exact Path.isAbsolute_eq_of_front hp hq (fun hs => hleft (List.mem_of_mem_head? hs))
    (fun ht => hright (List.mem_of_mem_head? ht))

theorem join (h : p.Siblings q) (base : Path) : (base.join p).Siblings (base.join q) := by
  have habsolute := h.isAbsolute_eq
  have hparts := h
  obtain ⟨front, s, t, hp, hq, hs, ht, hleft, hright⟩ := hparts
  unfold Path.join
  rw [habsolute]
  split
  · exact h
  split
  · refine ⟨base.bytes ++ front, s, t, ?_, ?_, hs, ht, hleft, hright⟩
    · rw [hp, List.append_assoc]
    · rw [hq, List.append_assoc]
  · refine ⟨base.bytes ++ Path.slash :: front, s, t, ?_, ?_, hs, ht, hleft, hright⟩
    · rw [hp, List.append_assoc, List.cons_append]
    · rw [hq, List.append_assoc, List.cons_append]

theorem resolve (h : p.Siblings q) (context : PathContext) : (context.resolve p).Siblings (context.resolve q) := by
  unfold PathContext.resolve
  cases context.workingDir with
  | none => exact h
  | some dir =>
    simp only [h.isAbsolute_eq]
    split
    · exact h
    · exact h.join dir

end Path.Siblings

/-- The bytes in front of others give the segments before them and the first bytes of their own first one. -/
theorem exists_splitOn_append (front : Bytes) :
    ∃ before last, ∀ s, (front ++ s).splitOn Path.slash = before ++ (s.splitOn Path.slash).modifyHead (last ++ ·) := by
  induction front with
  | nil =>
    refine ⟨[], [], fun s => ?_⟩
    show s.splitOn Path.slash = (s.splitOn Path.slash).modifyHead id
    rw [List.modifyHead_id, id]
  | cons c front ih =>
    obtain ⟨before, last, hsplit⟩ := ih
    -- a slash closes the segment that was open, and any other byte is added to it
    by_cases hc : c = Path.slash
    · refine ⟨[] :: before, last, fun s => ?_⟩
      rw [List.cons_append, List.splitOn_cons_eq_if_modifyHead, if_pos (beq_iff_eq.2 hc), hsplit]
      rfl
    · have hcons : ∀ s, (c :: (front ++ s)).splitOn Path.slash =
          (before ++ (s.splitOn Path.slash).modifyHead (last ++ ·)).modifyHead (c :: ·) := by
        intro s
        rw [List.splitOn_cons_eq_if_modifyHead, if_neg (mt beq_iff_eq.1 hc), hsplit]
      cases before with
      | nil =>
        refine ⟨[], c :: last, fun s => ?_⟩
        rw [List.cons_append, hcons, List.nil_append, List.modifyHead_modifyHead]
        rfl
      | cons first before => exact ⟨(c :: first) :: before, last, hcons⟩

/-- Bytes other than slashes belong to the first segment. -/
theorem splitOn_append_of_not_mem {front : Bytes} (h : Path.slash ∉ front) (s : Bytes) :
    (front ++ s).splitOn Path.slash = (s.splitOn Path.slash).modifyHead (front ++ ·) := by
  induction front with
  | nil =>
    show s.splitOn Path.slash = (s.splitOn Path.slash).modifyHead id
    rw [List.modifyHead_id, id]
  | cons c front ih =>
    rw [List.mem_cons, not_or] at h
    obtain ⟨hc, hfront⟩ := h
    rw [List.cons_append, List.splitOn_cons_eq_if_modifyHead, if_neg (mt beq_iff_eq.1 (Ne.symm hc)), ih hfront,
      List.modifyHead_modifyHead]
    rfl

namespace FileSystem

variable {fs : FileSystem}

theorem dropLast_names_of_siblings {p q : Path} (h : p.Siblings q) : p.names.dropLast = q.names.dropLast := by
  obtain ⟨front, s, t, hp, hq, hs, ht, hleft, hright⟩ := h
  obtain ⟨before, last, hsplit⟩ := exists_splitOn_append front
  have hnames : ∀ {cs : Bytes}, cs ≠ [] → Path.slash ∉ cs →
      ((front ++ cs).splitOn Path.slash).filter (· ≠ []) = before.filter (· ≠ []) ++ [last ++ cs] := by
    intro cs hne hcs
    have hlast : last ++ cs ≠ [] := by simp [hne]
    have hsingle : cs.splitOn Path.slash = [cs] := by
      simpa using splitOn_append_of_not_mem hcs []
    rw [hsplit cs, hsingle, List.filter_append]
    simp [hlast]
  unfold Path.names
  rw [hp, hq, hnames hs hleft, hnames ht hright, List.dropLast_concat, List.dropLast_concat]

theorem anchored_of_siblings {p q : Path} (h : p.Siblings q) (hp : fs.Anchored p) : fs.Anchored q := by
  obtain ⟨l, hl⟩ := hp
  refine ⟨l, ?_⟩
  rw [← dropLast_names_of_siblings h]
  unfold startOf at hl ⊢
  rw [← h.isAbsolute_eq]
  exact hl

end FileSystem

/-- Names of files that differ in their counters are siblings, if there is no slash in the extension. -/
theorem LinkPolicy.siblings_fileName (policy : LinkPolicy) (stem : String) {extension : Option String}
    (hextension : Path.slash ∉ Utf8.encode (extensionText extension)) (k m : UInt32) :
    Path.Siblings (.ofText (policy.fileName stem k extension)) (.ofText (policy.fileName stem m extension)) := by
  have hcounter : ∀ n : UInt32, policy.counterBytes n ++ Utf8.encode (extensionText extension) ≠ [] ∧
      Path.slash ∉ policy.counterBytes n ++ Utf8.encode (extensionText extension) := by
    intro n
    refine ⟨List.append_ne_nil_of_left_ne_nil (policy.counterBytes_ne_nil n) _, ?_⟩
    rw [List.mem_append, not_or]
    exact ⟨fun hmem => (ne_of_mem_counterBytes hmem).2 rfl, hextension⟩
  exact ⟨Utf8.encode (stem ++ policy.separator), _, _, policy.encode_fileName stem k extension,
    policy.encode_fileName stem m extension, (hcounter k).1, (hcounter m).1, (hcounter k).2, (hcounter m).2⟩

end TableForest
