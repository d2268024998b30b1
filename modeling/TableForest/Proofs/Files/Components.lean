import TableForest.Proofs.Files.Names

/-!
# Paths that lead to one place

A path is written in many ways: a slash may be doubled, and a dot between slashes is no step.  What counts is where
the path starts and which steps it takes, its **`Path.components`**.

## The architecture

* **`Path.exists_components`**: what is neither a dot nor a slash stands in one of the steps of a path, and what is
  around it decides on the others.
* **`LinkPolicy.exists_bytes_compose`**: the padded counter stands at one place of a link, whatever is around it.
* **`LinkPolicy.compose_injective`** puts them together.
-/

namespace TableForest

namespace Path

/-- The start of a path and its steps. -/
def components (p : Path) : Bytes × List Segment :=
  (start p.bytes, p.segmentsReversed.reverse.filter fun s => !isIdle s)

/-- Paths are one if they start in one place and take the same steps. -/
example : components (.ofText "out//./a.txt") = components (.ofText "out/a.txt/") ∧
    components (.ofText "./out") ≠ components (.ofText "out") := by
  decide +kernel

/-! ## Starts -/

theorem start_cons_of_ne {c : UInt8} {cs : Bytes} (hdot : c ≠ dot) (hslash : c ≠ slash) : start (c :: cs) = [] := by
  unfold start
  split
  · rename_i heq
    exact absurd (List.cons.inj heq).1 hdot
  · rename_i heq
    exact absurd (List.cons.inj heq).1 hdot
  · rename_i heq
    exact absurd (List.cons.inj heq).1 hslash
  · rfl

theorem start_dot_of_ne {c : UInt8} {cs : Bytes} (hslash : c ≠ slash) : start (dot :: c :: cs) = [] := by
  unfold start
  split
  · rename_i heq
    cases heq
  · rename_i heq
    exact absurd (List.cons.inj (List.cons.inj heq).2).1 hslash
  · rename_i heq
    cases heq
  · rfl

/-- Whether a path has a start of its own is decided by what stands in front of its first other byte. -/
theorem exists_start (front : Bytes) :
    ∃ root rest, ∀ (c : UInt8) (cs : Bytes), c ≠ dot ∧ c ≠ slash →
      start (front ++ c :: cs) = root ∧ (front ++ c :: cs).drop root.length = rest ++ c :: cs := by
  cases front with
  | nil => exact ⟨[], [], fun _ _ hc => ⟨start_cons_of_ne hc.1 hc.2, rfl⟩⟩
  | cons a front =>
    by_cases hslash : a = slash
    · subst hslash
      exact ⟨[slash], front, fun _ _ _ => ⟨rfl, rfl⟩⟩
    by_cases hdot : a = dot
    · subst hdot
      -- a dot is a start of its own if a slash follows
      cases front with
      | nil => exact ⟨[], [dot], fun _ _ hc => ⟨start_dot_of_ne hc.2, rfl⟩⟩
      | cons b front =>
        by_cases hb : b = slash
        · subst hb
          exact ⟨[dot], slash :: front, fun _ _ _ => ⟨rfl, rfl⟩⟩
        · exact ⟨[], dot :: b :: front, fun _ _ _ => ⟨start_dot_of_ne hb, rfl⟩⟩
    · exact ⟨[], a :: front, fun _ _ _ => ⟨start_cons_of_ne hdot hslash, rfl⟩⟩

/-! ## Steps -/

/-- What is neither a dot nor a slash makes a segment a step. -/
theorem isIdle_of_mem {s : Segment} {c : UInt8} (hmem : c ∈ s) (hc : c ≠ dot) : isIdle s = false := by
  refine Bool.eq_false_iff.2 fun h => ?_
  unfold isIdle at h
  rw [Bool.or_eq_true, beq_iff_eq, beq_iff_eq] at h
  rcases h with rfl | rfl
  · cases hmem
  · exact hc (List.mem_singleton.1 hmem)

/-- **What is neither a dot nor a slash stands in one of the steps of a path**, and the others do not depend on
it. -/
theorem exists_components (front back : Bytes) :
    ∃ root before first last after, ∀ (p : Path) (ds : Bytes), ds ≠ [] → (∀ c ∈ ds, c ≠ dot ∧ c ≠ slash) →
      p.bytes = front ++ (ds ++ back) →
      p.components = (root, before ++ (first ++ (ds ++ last)) :: after) := by
  obtain ⟨root, rest, hstart⟩ := exists_start front
  obtain ⟨before, first, hfront⟩ := exists_splitOn_append rest
  obtain ⟨last, after, hback⟩ := List.exists_cons_of_ne_nil (List.splitOn_ne_nil slash back)
  refine ⟨root, before.filter fun s => !isIdle s, first, last, after.filter fun s => !isIdle s, ?_⟩
  intro p ds hne hds hp
  obtain ⟨c, cs, rfl⟩ := List.exists_cons_of_ne_nil hne
  have hc := hds c List.mem_cons_self
  obtain ⟨hroot, hdrop⟩ := hstart c (cs ++ back) hc
  have hslash : slash ∉ c :: cs := fun hmem => (hds slash hmem).2 rfl
  have hsplit : (rest ++ c :: (cs ++ back)).splitOn slash = before ++ (first ++ (c :: cs ++ last)) :: after := by
    rw [hfront, ← List.cons_append, splitOn_append_of_not_mem hslash, hback]
    rfl
  -- the step with these bytes is none of those that are left out
  have hstep : isIdle (first ++ (c :: cs ++ last)) = false :=
    isIdle_of_mem (List.mem_append_right _ List.mem_cons_self) hc.1
  have hsegments : p.segmentsReversed.reverse = before ++ (first ++ (c :: cs ++ last)) :: after := by
    show ((p.bytes.drop (start p.bytes).length).splitOn slash).reverse.reverse = _
    rw [List.reverse_reverse, hp, List.cons_append, hroot, hdrop, hsplit]
  unfold components
  rw [hsegments, hp, List.cons_append, hroot, List.filter_append, List.filter_cons, hstep]
  rfl

end Path

namespace LinkPolicy

/-- The counter stands at one place of a link. -/
theorem exists_bytes_compose (policy : LinkPolicy) (baseDir : Path) (stem : String) (extension : Option String) :
    ∃ front back, ∀ k : UInt32, (policy.compose baseDir stem k extension).bytes =
      front ++ (policy.counterBytes k ++ back) := by
  have hname : ∀ k, (Path.ofText (policy.fileName stem k extension)).bytes = _ :=
    fun k => policy.encode_fileName stem k extension
  -- a name is not absolute for any counter, so the directory is joined in the same way for all of them
  have habsolute := fun k => policy.isAbsolute_fileName stem extension k 0
  unfold compose Path.join
  by_cases halone : ((Path.ofText (policy.fileName stem 0 extension)).isAbsolute || baseDir.isEmpty) = true
  · refine ⟨Utf8.encode (stem ++ policy.separator), Utf8.encode (extensionText extension), fun k => ?_⟩
    rw [habsolute, if_pos halone]
    exact hname k
  · by_cases hslash : (baseDir.bytes.getLast? == some Path.slash) = true
    · refine ⟨baseDir.bytes ++ Utf8.encode (stem ++ policy.separator), Utf8.encode (extensionText extension),
        fun k => ?_⟩
      rw [habsolute, if_neg halone, if_pos hslash, hname, List.append_assoc]
    · refine ⟨baseDir.bytes ++ Path.slash :: Utf8.encode (stem ++ policy.separator),
        Utf8.encode (extensionText extension), fun k => ?_⟩
      rw [habsolute, if_neg halone, if_neg hslash, hname, List.append_assoc, List.cons_append]

/-- **Links with different counters lead to different places**, whatever they are made of besides, and no link is
empty.  This is more than that their texts differ: what stands around the counter may be steps or none. -/
theorem compose_injective (policy : LinkPolicy) (baseDir : Path) (stem : String) (extension : Option String) :
    (Function.Injective fun k => (policy.compose baseDir stem k extension).components) ∧
      (Function.Injective fun k => policy.compose baseDir stem k extension) ∧
      ∀ k, (policy.compose baseDir stem k extension).text ≠ "" := by
  -- the counter stands in one component, and its digits are no slashes
  obtain ⟨front, back, hcompose⟩ := policy.exists_bytes_compose baseDir stem extension
  obtain ⟨root, before, first, last, after, hparts⟩ := Path.exists_components front back
  have hcomponents : ∀ k, (policy.compose baseDir stem k extension).components =
      (root, before ++ (first ++ (policy.counterBytes k ++ last)) :: after) := by
    intro k
    exact hparts _ _ (policy.counterBytes_ne_nil k) (fun c hc => ne_of_mem_counterBytes hc) (hcompose k)
  have hinjective : Function.Injective fun k => (policy.compose baseDir stem k extension).components := by
    intro k m h
    simp only [hcomponents] at h
    -- what is around the digits is cancelled on both sides
    have hsteps := List.append_cancel_left (Prod.mk.inj h).2
    have hstep := List.append_cancel_left (List.cons.inj hsteps).1
    exact counterBytes_injective (List.append_cancel_right hstep)
  refine ⟨hinjective, fun k m h => hinjective (congrArg Path.components h), fun k => ?_⟩
  exact Path.text_ne_empty (policy.bytes_compose_ne_nil baseDir stem k extension)

end LinkPolicy

end TableForest
