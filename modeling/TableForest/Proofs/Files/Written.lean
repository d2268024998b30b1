import TableForest.Proofs.Files.FileSystem

/-!
# What writing a file leaves

A file that is written may be new or take the place of one that was there, and the directories above it may have
been missing.  The path leads to the file afterwards, and every other file is as it was.

## The architecture

* **`FileSystem.Writes`** says what a written file leaves; **`writes_of_write`** and
  **`writes_of_writeWithParents`** get there from the two ways of writing.
* **`Writes.locate`** and **`Writes.read_or_locate`** turn it into what paths lead to.
-/

namespace TableForest.FileSystem

variable {fs g k : FileSystem} {p : Path} {l : Location} {content : Bytes}

/-- A file has been written where a path leads, and nothing else has changed but that directories may be new. -/
structure Writes (fs g : FileSystem) (p : Path) (l : Location) (content : Bytes) : Prop where
  workingDirectory : g.workingDirectory = fs.workingDirectory
  located : g.locate p = .ok l
  node : g.node? l = some (.file content)
  /-- It was no directory that gave way. -/
  noDirectory : fs.node? l ≠ some .directory
  others : ∀ {m n}, m ≠ l → fs.node? m = some n → g.node? m = some n
  new : ∀ {m n}, m ≠ l → g.node? m = some n → fs.node? m = some n ∨ n = .directory

theorem writes_of_write (h : fs.write p content = .ok g) : ∃ l, fs.Writes g p l content := by
  unfold write at h
  obtain ⟨⟨l, r⟩, htarget, h⟩ := Except.bind_eq_ok.1 h
  dsimp only at h
  split at h
  · cases h
  rename_i hplain
  rw [not_or, Bool.not_eq_true] at hplain
  obtain rfl := Except.ok.inj h
  have hlocate := locate_of_target htarget hplain.1
  have hroot : l ≠ [] := by
    obtain ⟨-, above, -, -, -, rfl⟩ := target_eq_ok htarget
    simp
  -- one place is written, and it held no directory, so every path leads where it led
  have hothers : ∀ {m}, m ≠ l → (fs.put l (.file content)).node? m = fs.node? m := by
    intro m hm
    rw [node?_put hroot, if_neg hm]
  have hnode : (fs.put l (.file content)).node? l = some (.file content) := by
    rw [node?_put hroot, if_pos rfl]
  have hdirectory : ∀ m, fs.node? m = some .directory → (fs.put l (.file content)).node? m = some .directory := by
    intro m hm
    have hne : m ≠ l := fun heq => hplain.2 (heq ▸ hm)
    rw [hothers hne, hm]
  refine ⟨l, rfl, ?_, hnode, hplain.2, fun hm h => (hothers hm).trans h, fun hm h => .inl ((hothers hm).symm.trans h)⟩
  obtain ⟨r', hroute, hfollow, hslash⟩ := locate_eq_ok.1 hlocate
  exact locate_eq_ok.2 ⟨r', hroute, follow_of_directories hdirectory hfollow, fun h => hdirectory _ (hslash h)⟩

/-- Directories that were made before are none of the file's business. -/
theorem Writes.of_addsDirectories (hadds : fs.AddsDirectories g) (h : g.Writes k p l content) :
    fs.Writes k p l content where
  workingDirectory := h.workingDirectory.trans hadds.keeps.workingDirectory
  located := h.located
  node := h.node
  noDirectory := fun hl => h.noDirectory (hadds.keeps.nodes hl)
  others := fun hm hn => h.others hm (hadds.keeps.nodes hn)
  new := by
    intro m n hm hn
    rcases h.new hm hn with hn | rfl
    · exact hadds.directories hn
    · exact .inr rfl

theorem writes_of_writeWithParents (h : fs.writeWithParents p content = (.ok (), g)) :
    ∃ l, fs.Writes g p l content := by
  -- the parents are directories, which take nothing away
  have hadds := addsDirectories_createParents fs p
  unfold writeWithParents at h
  rcases hparents : fs.createParents p with ⟨e | u, made⟩
  · rw [hparents] at h
    cases h
  · rw [hparents] at h hadds
    dsimp only at h
    cases hwrite : made.write p content with
    | error e =>
      rw [hwrite] at h
      cases h
    | ok written =>
      rw [hwrite] at h
      obtain ⟨-, rfl⟩ := Prod.mk.inj h
      obtain ⟨l, hl⟩ := writes_of_write hwrite
      exact ⟨l, hl.of_addsDirectories hadds⟩

namespace Writes

variable (h : fs.Writes g p l content)

include h

theorem read : g.read p = .ok content :=
  read_eq_ok.2 ⟨l, h.located, h.node⟩

theorem directory {m : Location} (hm : fs.node? m = some .directory) : g.node? m = some .directory := by
  have hne : m ≠ l := fun heq => h.noDirectory (heq ▸ hm)
  exact h.others hne hm

/-- Every path that led somewhere leads there still. -/
theorem locate {q : Path} {m : Location} (hq : fs.locate q = .ok m) : g.locate q = .ok m := by
  obtain ⟨r, hroute, hfollow, hslash⟩ := locate_eq_ok.1 hq
  exact locate_eq_ok.2 ⟨r, (route_congr h.workingDirectory q).trans hroute,
    follow_of_directories (fun _ => h.directory) hfollow, fun hr => h.directory (hslash hr)⟩

/-- **What could be read can be read still**, except through paths that lead to the written file. -/
theorem read_or_locate {q : Path} {old : Bytes} (hq : fs.read q = .ok old) :
    g.read q = .ok old ∨ g.locate q = g.locate p := by
  obtain ⟨m, hm, hnode⟩ := read_eq_ok.1 hq
  by_cases hml : m = l
  · apply Or.inr
    rw [h.located, h.locate hm, hml]
  · apply Or.inl
    exact read_eq_ok.2 ⟨m, h.locate hm, h.others hml hnode⟩

end Writes

end TableForest.FileSystem
