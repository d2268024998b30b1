import TableForest.Proofs.Files.FileSystem
import TableForest.Proofs.Table.Links

/-!
# A file system in which nothing exists

In a file system without files and without directories paths lead nowhere, unless they only go round in the root.  The
link of a column is never such a path, whatever its directory, stem and extension are: its counter is in one of its
names.

## The architecture

* **`FileSystem.dots_of_follow`**: what leads to the root of a bare file system is a row of dots.
* **`FileSystem.not_pathExists_of_mem`** says so of a path, by one of its bytes.
* **`Table.not_pathExists_link`** applies it to links.
-/

namespace TableForest

/-- A byte that separates nothing stands in one of the segments. -/
theorem exists_segment_of_mem {sep c : UInt8} (hne : c ≠ sep) {cs : Bytes} (h : c ∈ cs) :
    ∃ s ∈ cs.splitOn sep, c ∈ s := by
  induction cs with
  | nil => cases h
  | cons x rest ih =>
    rw [List.splitOn_cons_eq_if_modifyHead]
    by_cases hx : x = sep
    · rw [if_pos (beq_iff_eq.2 hx)]
      have hrest : c ∈ rest := by
        rcases List.mem_cons.1 h with rfl | hrest
        · exact absurd hx hne
        · exact hrest
      obtain ⟨s, hs, hc⟩ := ih hrest
      exact ⟨s, List.mem_cons_of_mem [] hs, hc⟩
    · rw [if_neg (by simpa using hx)]
      obtain ⟨first, others, hsplit⟩ := List.exists_cons_of_ne_nil (List.splitOn_ne_nil sep rest)
      rw [hsplit] at ih ⊢
      -- the first segment grows by the byte in front
      show ∃ s ∈ (x :: first) :: others, c ∈ s
      rcases List.mem_cons.1 h with rfl | hrest
      · exact ⟨c :: first, List.mem_cons_self, List.mem_cons_self⟩
      · obtain ⟨s, hs, hc⟩ := ih hrest
        rcases List.mem_cons.1 hs with rfl | hs
        · exact ⟨x :: s, List.mem_cons_self, List.mem_cons_of_mem x hc⟩
        · exact ⟨s, List.mem_cons_of_mem _ hs, hc⟩

namespace FileSystem

/-- Nothing exists but the root. -/
def bare : FileSystem := ⟨[], []⟩

theorem eq_nil_of_node?_bare {l : Location} {n : FileNode} (h : bare.node? l = some n) : l = [] := by
  by_contra hne
  unfold node? at h
  rw [if_neg hne] at h
  cases h

/-- **What leads to the root of a bare file system is a row of dots.** -/
theorem dots_of_follow {l : Location} {names : List Path.Segment} (h : bare.follow l names = .ok []) :
    ∀ name ∈ names, name = Path.here ∨ name = Path.up := by
  induction names generalizing l with
  | nil => simp
  | cons name rest ih =>
    obtain ⟨hl, next, hstep, hrest⟩ := follow_cons_eq_ok.1 h
    obtain rfl := eq_nil_of_node?_bare hl
    refine List.forall_mem_cons.2 ⟨?_, ih hrest⟩
    -- a name in the root leads to a place where nothing stands
    by_contra hname
    obtain ⟨hdot, hdots⟩ := not_or.1 hname
    have hnext : next = [name] := by
      unfold stepInto at hstep
      rw [if_neg hdot, if_neg hdots] at hstep
      split at hstep
      · cases hstep
      · exact (Except.ok.inj hstep).symm
    subst hnext
    cases rest with
    | nil => cases hrest
    | cons second others =>
      obtain ⟨hnode, -⟩ := follow_cons_eq_ok.1 hrest
      cases eq_nil_of_node?_bare hnode

/-- All names of a path are followed. -/
theorem mem_of_mem_names {fs : FileSystem} {p : Path} {r : Route} (h : fs.route p = .ok r) {name : Path.Segment}
    (hname : name ∈ p.names) : name ∈ r.before ++ [r.last] := by
  unfold route at h
  split at h
  · cases h
  split at h
  · cases h
  split at h
  · cases h
  simp only at h
  -- a route keeps the names of its path, or the path has none
  split at h
  · rename_i hnil
    rw [List.reverse_eq_nil_iff] at hnil
    rw [hnil] at hname
    cases hname
  · rename_i last before hcons
    obtain rfl := Except.ok.inj h
    rw [List.reverse_eq_cons_iff] at hcons
    rw [hcons] at hname
    exact hname

/-- A path with a byte that is neither a dot nor a slash leads to nothing. -/
theorem not_pathExists_of_mem {p : Path} {b : UInt8} (h : b ∈ p.bytes) (hb : b ≠ Path.dot ∧ b ≠ Path.slash) :
    bare.pathExists p = false := by
  by_contra hexists
  have hok : (bare.get p).isOk = true := Bool.not_eq_false _ ▸ hexists
  cases hget : bare.get p with
  | error e =>
    rw [hget] at hok
    cases hok
  | ok n =>
    obtain ⟨l, hlocate, hnode⟩ := get_eq_ok.1 hget
    obtain rfl := eq_nil_of_node?_bare hnode
    obtain ⟨r, hroute, hfollow, -⟩ := locate_eq_ok.1 hlocate
    -- the byte stands in one of the names that are followed
    obtain ⟨s, hs, hmem⟩ := exists_segment_of_mem hb.2 h
    have hname : s ∈ p.names := List.mem_filter.2 ⟨hs, by simpa using List.ne_nil_of_mem hmem⟩
    rcases dots_of_follow hfollow s (mem_of_mem_names hroute hname) with rfl | rfl
    · exact hb.1 (List.mem_singleton.1 hmem)
    · rcases List.mem_cons.1 hmem with heq | hmem
      · exact hb.1 heq
      · exact hb.1 (List.mem_singleton.1 hmem)

end FileSystem

/-! ## Links -/

/-- A path that is put after another one keeps its bytes. -/
theorem Path.mem_join {p : Path} {b : UInt8} (h : b ∈ p.bytes) (base : Path) : b ∈ (base.join p).bytes := by
  unfold join
  split
  · exact h
  split
  · exact List.mem_append_right _ h
  · exact List.mem_append_right _ (List.mem_cons_of_mem _ h)

theorem PathContext.mem_resolve {p : Path} {b : UInt8} (h : b ∈ p.bytes) (context : PathContext) :
    b ∈ (context.resolve p).bytes := by
  unfold resolve
  cases context.workingDir with
  | none => exact h
  | some dir =>
    dsimp only
    split
    · exact h
    · exact Path.mem_join h dir

/-- There is a byte in the name of a file that is neither a dot nor a slash: a digit of its counter. -/
theorem LinkPolicy.exists_mem_encode_fileName (policy : LinkPolicy) (stem : String) (counter : UInt32)
    (extension : Option String) :
    ∃ b ∈ Utf8.encode (policy.fileName stem counter extension), b ≠ Path.dot ∧ b ≠ Path.slash := by
  obtain ⟨b, bs, hbs⟩ := List.exists_cons_of_ne_nil (policy.counterBytes_ne_nil counter)
  have hb : b ∈ policy.counterBytes counter := hbs ▸ List.mem_cons_self
  refine ⟨b, ?_, ne_of_mem_counterBytes hb⟩
  rw [encode_fileName]
  exact List.mem_append_right _ (List.mem_append_left _ hb)

/-- **The links of a column are new in a bare file system.** -/
theorem Table.not_pathExists_link (t : Table) (info : ColumnInfo) (dir : Path) (counter : UInt32) :
    FileSystem.bare.pathExists (t.resolve (t.linkAt info dir counter)) = false := by
  obtain ⟨b, hmem, hb⟩ := t.linkPolicy.exists_mem_encode_fileName info.linkStem counter info.link.extension
  have hlink : b ∈ (t.linkAt info dir counter).bytes := Path.mem_join hmem dir
  exact FileSystem.not_pathExists_of_mem (PathContext.mem_resolve hlink _) hb

end TableForest
