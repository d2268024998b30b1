import Mathlib.Data.List.Induction
import Mathlib.Data.List.TakeWhile
import TableForest.Files.FileSystem
import TableForest.Proofs.Except

/-!
# What stands in a file system stays

Making directories and writing a new file leave all that was there alone.  Whether a file is new is asked before the
directories above it are made, and these may change where a path leads: behind a missing directory `..` leads
nowhere, and behind the same directory, once it is made, it leads up again.

## The architecture

* **`FileSystem.Keeps`** and **`FileSystem.AddsDirectories`** relate a file system to a later one; paths that lead
  somewhere lead there still (**`Keeps.follow`**).
* **`FileSystem.Anchored`** says of a path that its last `..` stands behind directories that are there.  The
  names that are left only lead down, and then the way to what is there can be gone back
  (**`follow_of_prefix`**).
* **`writeWithParents_cases`** puts them together: a file that is written under an anchored path where nothing
  is was not there before, and if it cannot be written nothing but directories is made.
-/

namespace TableForest.FileSystem

variable {fs g k : FileSystem}

/-! ## Locations -/

theorem lookup_replace (nodes : List (Location × FileNode)) (l m : Location) (n : FileNode) :
    (nodes.map fun e => if e.1 = l then (l, n) else e).lookup m =
      if m = l then (nodes.lookup l).map fun _ => n else nodes.lookup m := by
  induction nodes with
  | nil => simp
  | cons e rest ih =>
    obtain ⟨key, value⟩ := e
    -- an entry under the same key is replaced, and so are any behind it
    by_cases hkey : key = l
    · by_cases hm : m = l
      · simp [hkey, hm]
      · have hne : (m == l) = false := by simpa using hm
        simp [hkey, hm, hne, List.lookup_cons, ih]
    · by_cases hm : m = l
      · have hne : (l == key) = false := by simpa using fun h : l = key => hkey h.symm
        rw [hm, if_pos rfl] at ih
        simp [hkey, hm, hne, List.lookup_cons, ih]
      · simp [hkey, hm, List.lookup_cons, ih]

theorem node?_put {l : Location} (hl : l ≠ []) (n : FileNode) (m : Location) :
    (fs.put l n).node? m = if m = l then some n else fs.node? m := by
  -- the root is no entry, so nothing can be put in its place
  by_cases hroot : m = []
  · have hne : ¬m = l := fun h => hl (h.symm.trans hroot)
    rw [if_neg hne, hroot]
    rfl
  · unfold node? put
    rw [if_neg hroot, if_neg hroot]
    split
    · rename_i htaken
      simp only
      rw [lookup_replace]
      split
      · obtain ⟨old, hold⟩ := Option.isSome_iff_exists.1 htaken
        rw [hold]
        rfl
      · rfl
    · rename_i hfree
      have hnone : fs.nodes.lookup l = none := Option.not_isSome_iff_eq_none.1 hfree
      simp only
      rw [List.lookup_append]
      split
      · rename_i hm
        simp [hm, hnone]
      · rename_i hm
        have hne : (m == l) = false := by simpa using hm
        simp [List.lookup_cons, hne]

/-- What stands somewhere stands in a directory. -/
def WellFormed (fs : FileSystem) : Prop :=
  ∀ l n, fs.node? l = some n → fs.node? l.dropLast = some .directory

theorem wellFormed_of_forall (h : ∀ e ∈ fs.nodes, fs.node? e.1.dropLast = some .directory) : fs.WellFormed := by
  intro l n hl
  by_cases hroot : l = []
  · rw [hroot]
    rfl
  · unfold node? at hl
    rw [if_neg hroot] at hl
    have hmem : (l, n) ∈ fs.nodes := by
      obtain ⟨before, after, heq, -⟩ := List.lookup_eq_some_iff.1 hl
      rw [heq]
      simp
    exact h _ hmem

/-- Above a directory there are directories. -/
theorem WellFormed.directory_of_prefix (h : fs.WellFormed) {l m : Location} (hl : fs.node? l = some .directory)
    (hm : m <+: l) : fs.node? m = some .directory := by
  obtain ⟨rest, rfl⟩ := hm
  induction rest using List.reverseRecOn with
  | nil => simpa using hl
  | append_singleton rest name ih =>
    have habove := h _ _ hl
    rw [← List.append_assoc, List.dropLast_concat] at habove
    exact ih habove

theorem WellFormed.put (h : fs.WellFormed) {above : Location} {name : Path.Segment}
    (habove : fs.node? above = some .directory) (n : FileNode) (hnew : fs.node? (above ++ [name]) = none) :
    (fs.put (above ++ [name]) n).WellFormed := by
  have hne : above ++ [name] ≠ [] := by simp
  -- The new location is above nothing that is there, for nothing stood there.
  have hkeep : ∀ m, fs.node? m = some .directory → (fs.put (above ++ [name]) n).node? m = some .directory := by
    intro m hm
    have hother : m ≠ above ++ [name] := by
      rintro rfl
      rw [hnew] at hm
      cases hm
    rw [node?_put hne, if_neg hother, hm]
  intro m c hm
  rw [node?_put hne] at hm
  split at hm
  · rename_i heq
    rw [heq, List.dropLast_concat]
    exact hkeep above habove
  · exact hkeep _ (h m c hm)

/-! ## Later file systems -/

/-- Whatever stands somewhere stands there still. -/
structure Keeps (fs g : FileSystem) : Prop where
  workingDirectory : g.workingDirectory = fs.workingDirectory
  nodes : ∀ {l n}, fs.node? l = some n → g.node? l = some n

namespace Keeps

theorem refl (fs : FileSystem) : fs.Keeps fs where
  workingDirectory := rfl
  nodes := fun h => h

theorem trans (h : fs.Keeps g) (h' : g.Keeps k) : fs.Keeps k where
  workingDirectory := h'.workingDirectory.trans h.workingDirectory
  nodes := fun hl => h'.nodes (h.nodes hl)

theorem put {l : Location} (hl : l ≠ []) (hnew : fs.node? l = none) (n : FileNode) : fs.Keeps (fs.put l n) where
  workingDirectory := rfl
  nodes := by
    intro m c hm
    have hne : m ≠ l := by
      rintro rfl
      rw [hnew] at hm
      cases hm
    rw [node?_put hl, if_neg hne, hm]

end Keeps

/-- Nothing but directories is new. -/
structure AddsDirectories (fs g : FileSystem) : Prop where
  keeps : fs.Keeps g
  directories : ∀ {l n}, g.node? l = some n → fs.node? l = some n ∨ n = .directory
  wellFormed : fs.WellFormed → g.WellFormed

namespace AddsDirectories

theorem refl (fs : FileSystem) : fs.AddsDirectories fs where
  keeps := .refl fs
  directories := fun h => .inl h
  wellFormed := fun h => h

theorem trans (h : fs.AddsDirectories g) (h' : g.AddsDirectories k) : fs.AddsDirectories k where
  keeps := h.keeps.trans h'.keeps
  directories := by
    intro l n hl
    rcases h'.directories hl with hl | hl
    · exact h.directories hl
    · exact .inr hl
  wellFormed := fun hfs => h'.wellFormed (h.wellFormed hfs)

end AddsDirectories

/-! ## Following names -/

theorem enter_eq_ok {l m : Location} : fs.enter l = .ok m ↔ fs.node? l = some .directory ∧ l = m := by
  unfold enter
  split
  · rename_i hl
    simp [hl]
  · rename_i hl
    simp [hl]
  · rename_i hl
    simp [hl]

/-- The first name is followed from a directory, and the others from where it leads. -/
theorem follow_cons_eq_ok {l m : Location} {name : Path.Segment} {rest : List Path.Segment} :
    fs.follow l (name :: rest) = .ok m ↔
      fs.node? l = some .directory ∧ ∃ next, stepInto l name = .ok next ∧ fs.follow next rest = .ok m := by
  rw [follow]
  constructor
  · intro h
    obtain ⟨here, hhere, h⟩ := Except.bind_eq_ok.1 h
    obtain ⟨hdir, rfl⟩ := enter_eq_ok.1 hhere
    exact ⟨hdir, Except.bind_eq_ok.1 h⟩
  · rintro ⟨hdir, hrest⟩
    exact Except.bind_eq_ok.2 ⟨l, enter_eq_ok.2 ⟨hdir, rfl⟩, Except.bind_eq_ok.2 hrest⟩

theorem follow_append_eq_ok {l m : Location} {names rest : List Path.Segment} :
    fs.follow l (names ++ rest) = .ok m ↔
      ∃ middle, fs.follow l names = .ok middle ∧ fs.follow middle rest = .ok m := by
  induction names generalizing l with
  | nil => simp [follow]
  | cons name names ih =>
    simp only [List.cons_append, follow_cons_eq_ok, ih]
    grind

/-- Names lead to the same place as long as the directories on the way stay. -/
theorem follow_of_directories (h : ∀ l, fs.node? l = some .directory → g.node? l = some .directory)
    {l m : Location} {names : List Path.Segment} (hfollow : fs.follow l names = .ok m) : g.follow l names = .ok m := by
  induction names generalizing l with
  | nil => exact hfollow
  | cons name rest ih =>
    obtain ⟨hdir, next, hstep, hrest⟩ := follow_cons_eq_ok.1 hfollow
    exact follow_cons_eq_ok.2 ⟨h l hdir, next, hstep, ih hrest⟩

/-- **Where names lead they lead still**, after more has been made. -/
theorem Keeps.follow (h : fs.Keeps g) {l m : Location} {names : List Path.Segment}
    (hfollow : fs.follow l names = .ok m) : g.follow l names = .ok m :=
  follow_of_directories (fun _ hl => h.nodes hl) hfollow

theorem prefix_of_stepInto {l m : Location} {name : Path.Segment} (hname : name ≠ Path.up)
    (h : stepInto l name = .ok m) : l <+: m := by
  unfold stepInto at h
  rw [if_neg hname] at h
  split at h
  · obtain rfl := Except.ok.inj h
    exact List.prefix_refl l
  · split at h
    · cases h
    · obtain rfl := Except.ok.inj h
      exact List.prefix_append l [name]

/-- Without `..` names only lead down. -/
theorem prefix_of_follow {l m : Location} {names : List Path.Segment} (hnames : ∀ name ∈ names, name ≠ Path.up)
    (h : fs.follow l names = .ok m) : l <+: m := by
  induction names generalizing l with
  | nil =>
    obtain rfl := Except.ok.inj h
    exact List.prefix_refl l
  | cons name rest ih =>
    rw [List.forall_mem_cons] at hnames
    obtain ⟨-, next, hstep, hrest⟩ := follow_cons_eq_ok.1 h
    exact (prefix_of_stepInto hnames.1 hstep).trans (ih hnames.2 hrest)

/-- **The way down to a directory that is there can be gone**: all that it passes is there. -/
theorem follow_of_prefix (hfs : fs.WellFormed) {l m : Location} {names : List Path.Segment}
    (hnames : ∀ name ∈ names, name ≠ Path.up) (hm : fs.node? m = some .directory) (h : g.follow l names = .ok m) :
    fs.follow l names = .ok m := by
  induction names generalizing l with
  | nil => exact h
  | cons name rest ih =>
    rw [List.forall_mem_cons] at hnames
    obtain ⟨-, next, hstep, hrest⟩ := follow_cons_eq_ok.1 h
    have hdown := (prefix_of_stepInto hnames.1 hstep).trans (prefix_of_follow hnames.2 hrest)
    exact follow_cons_eq_ok.2 ⟨hfs.directory_of_prefix hm hdown, next, hstep, ih hnames.2 hrest⟩

/-! ## Paths -/

/-- Where a path starts. -/
def startOf (fs : FileSystem) (p : Path) : Location :=
  if p.isAbsolute then [] else fs.workingDirectory

/-- The names up to the last `..`. -/
def upToDots (names : List Path.Segment) : List Path.Segment :=
  (names.reverse.dropWhile (· ≠ Path.up)).reverse

/-- The last `..` above the file of a path stands behind directories that are there. -/
def Anchored (fs : FileSystem) (p : Path) : Prop :=
  ∃ l, fs.follow (fs.startOf p) (upToDots p.names.dropLast) = .ok l

theorem exists_upToDots (names : List Path.Segment) :
    ∃ down, names = upToDots names ++ down ∧ ∀ name ∈ down, name ≠ Path.up := by
  refine ⟨(names.reverse.takeWhile (· ≠ Path.up)).reverse, ?_, fun name hname => ?_⟩
  · unfold upToDots
    rw [← List.reverse_append, List.takeWhile_append_dropWhile, List.reverse_reverse]
  · have hall := List.all_takeWhile (l := names.reverse) (p := (· ≠ Path.up))
    simpa using List.all_eq_true.1 hall name (List.mem_reverse.1 hname)

/-- A path without `..` is anchored. -/
theorem anchored_of_names {p : Path} (h : ∀ name ∈ p.names, name ≠ Path.up) : fs.Anchored p := by
  have hnone : upToDots p.names.dropLast = [] := by
    unfold upToDots
    rw [List.reverse_eq_nil_iff, List.dropWhile_eq_nil_iff]
    intro name hname
    have hmem := List.dropLast_subset _ (List.mem_reverse.1 hname)
    simpa using h name hmem
  refine ⟨fs.startOf p, ?_⟩
  rw [hnone]
  rfl

/-- The route of a path goes by its names. -/
theorem route_eq_ok {p : Path} {r : Route} (h : fs.route p = .ok r) :
    r.start = fs.startOf p ∧ r.before = p.names.dropLast := by
  unfold route at h
  split at h
  -- an empty path, or one with a name that cannot be, has no route
  · cases h
  split at h
  · cases h
  split at h
  · cases h
  simp only at h
  split at h
  · -- a path without names leads to where it starts
    rename_i hnil
    obtain rfl := Except.ok.inj h
    rw [List.reverse_eq_nil_iff] at hnil
    rw [hnil]
    exact ⟨rfl, rfl⟩
  · rename_i last before hcons
    obtain rfl := Except.ok.inj h
    refine ⟨rfl, ?_⟩
    rw [List.reverse_eq_cons_iff] at hcons
    rw [hcons, List.dropLast_concat]

theorem route_congr (h : g.workingDirectory = fs.workingDirectory) (p : Path) : g.route p = fs.route p := by
  unfold route
  rw [h]

theorem Keeps.route (h : fs.Keeps g) (p : Path) : g.route p = fs.route p :=
  route_congr h.workingDirectory p

theorem Keeps.anchored (h : fs.Keeps g) {p : Path} (hp : fs.Anchored p) : g.Anchored p := by
  obtain ⟨l, hl⟩ := hp
  refine ⟨l, ?_⟩
  unfold startOf at hl ⊢
  rw [h.workingDirectory]
  exact h.follow hl

/-- Where a new name may stand: in a directory, under a name that is no dots. -/
theorem target_eq_ok {p : Path} {ifDots : FileError} {l : Location} {r : Route} (h : fs.target p ifDots = .ok (l, r)) :
    fs.route p = .ok r ∧ ∃ above, fs.follow r.start r.before = .ok above ∧ fs.node? above = some .directory ∧
      stepInto above r.last = .ok l ∧ l = above ++ [r.last] := by
  unfold target at h
  obtain ⟨route, hroute, h⟩ := Except.bind_eq_ok.1 h
  obtain ⟨above, hfollow, h⟩ := Except.bind_eq_ok.1 h
  obtain ⟨here, henter, h⟩ := Except.bind_eq_ok.1 h
  obtain ⟨hdir, rfl⟩ := enter_eq_ok.1 henter
  split at h
  · cases h
  -- neither a dot nor two are left to be the last name
  rename_i hdots
  rw [not_or] at hdots
  obtain ⟨next, hstep, h⟩ := Except.bind_eq_ok.1 h
  obtain ⟨rfl, rfl⟩ := Prod.mk.inj (Except.ok.inj h)
  refine ⟨hroute, above, hfollow, hdir, hstep, ?_⟩
  unfold stepInto at hstep
  rw [if_neg hdots.1, if_neg hdots.2] at hstep
  split at hstep
  · cases hstep
  · exact (Except.ok.inj hstep).symm

theorem locate_eq_ok {p : Path} {l : Location} :
    fs.locate p = .ok l ↔ ∃ r, fs.route p = .ok r ∧ fs.follow r.start (r.before ++ [r.last]) = .ok l ∧
      (r.asDirectory = true → fs.node? l = some .directory) := by
  unfold locate
  rw [Except.bind_eq_ok]
  refine exists_congr fun r => and_congr_right fun _ => ?_
  rw [Except.bind_eq_ok]
  cases r.asDirectory with
  | true => simp [enter_eq_ok, and_comm]
  | false => simp [pure, Except.pure]

/-- Where a new name may stand the path leads, unless a slash follows the name. -/
theorem locate_of_target {p : Path} {ifDots : FileError} {l : Location} {r : Route}
    (h : fs.target p ifDots = .ok (l, r)) (hplain : r.asDirectory = false) : fs.locate p = .ok l := by
  obtain ⟨hroute, above, hfollow, habove, hstep, -⟩ := target_eq_ok h
  have hlast : fs.follow above [r.last] = .ok l := follow_cons_eq_ok.2 ⟨habove, _, hstep, rfl⟩
  exact locate_eq_ok.2 ⟨r, hroute, follow_append_eq_ok.2 ⟨above, hfollow, hlast⟩, by simp [hplain]⟩

theorem Keeps.locate (h : fs.Keeps g) {p : Path} {l : Location} (hlocate : fs.locate p = .ok l) :
    g.locate p = .ok l := by
  obtain ⟨r, hroute, hfollow, hdirectory⟩ := locate_eq_ok.1 hlocate
  exact locate_eq_ok.2 ⟨r, (h.route p).trans hroute, h.follow hfollow, fun hslash => h.nodes (hdirectory hslash)⟩

theorem get_eq_ok {p : Path} {n : FileNode} : fs.get p = .ok n ↔ ∃ l, fs.locate p = .ok l ∧ fs.node? l = some n := by
  unfold get
  rw [Except.bind_eq_ok]
  refine exists_congr fun l => and_congr_right fun _ => ?_
  cases fs.node? l with
  | none => simp [throw, throwThe, MonadExceptOf.throw]
  | some m => simp [pure, Except.pure]

theorem read_eq_ok {p : Path} {content : Bytes} :
    fs.read p = .ok content ↔ ∃ l, fs.locate p = .ok l ∧ fs.node? l = some (.file content) := by
  rw [← get_eq_ok]
  unfold read
  rw [Except.bind_eq_ok]
  constructor
  · rintro ⟨n, hn, h⟩
    cases n with
    | file found =>
      obtain rfl := Except.ok.inj h
      exact hn
    | directory => cases h
  · exact fun h => ⟨_, h, rfl⟩

/-- What can be read can be read still. -/
theorem Keeps.read (h : fs.Keeps g) {p : Path} {content : Bytes} (hread : fs.read p = .ok content) :
    g.read p = .ok content := by
  obtain ⟨l, hl, hn⟩ := read_eq_ok.1 hread
  exact read_eq_ok.2 ⟨l, h.locate hl, h.nodes hn⟩

/-! ## Making directories -/

theorem addsDirectories_createDirectory {p : Path} (h : fs.createDirectory p = .ok g) : fs.AddsDirectories g := by
  unfold createDirectory at h
  obtain ⟨⟨l, r⟩, htarget, h⟩ := Except.bind_eq_ok.1 h
  obtain ⟨-, above, -, habove, -, rfl⟩ := target_eq_ok htarget
  dsimp only at h
  split at h
  · cases h
  rename_i hfree
  have hnew : fs.node? (above ++ [r.last]) = none := by simpa using hfree
  have hne : above ++ [r.last] ≠ [] := by simp
  obtain rfl := Except.ok.inj h
  refine ⟨.put hne hnew _, fun {m n} hm => ?_, fun hfs => hfs.put habove _ hnew⟩
  rw [node?_put hne] at hm
  split at hm
  · exact .inr (Option.some.inj hm).symm
  · exact .inl hm

theorem addsDirectories_createChain (fs : FileSystem) (paths : List Path) :
    fs.AddsDirectories (fs.createChain paths).2 := by
  induction paths generalizing fs with
  | nil => exact .refl fs
  | cons p above ih =>
    rw [createChain]
    split
    · exact .refl fs
    split
    · rename_i made hmade
      exact addsDirectories_createDirectory hmade
    · -- the directory above is made first
      have habove := ih fs
      split
      · rename_i e left hchain
        rw [hchain] at habove
        exact habove
      · rename_i left hchain
        rw [hchain] at habove
        split
        · rename_i made hmade
          exact habove.trans (addsDirectories_createDirectory hmade)
        · exact habove
    · exact .refl fs

theorem addsDirectories_createParents (fs : FileSystem) (p : Path) :
    fs.AddsDirectories (fs.createParents p).2 := by
  unfold createParents
  split
  · split
    · exact .refl fs
    · exact addsDirectories_createChain fs _
  · exact .refl fs

/-! ## Writing a new file -/

/-- A file is new: nothing stood there, and the path leads to it now. -/
structure AddsFile (fs g : FileSystem) (p : Path) (l : Location) (content : Bytes) : Prop where
  keeps : fs.Keeps g
  wellFormed : g.WellFormed
  new : fs.node? l = none
  located : g.locate p = .ok l
  node : g.node? l = some (.file content)

/-- **An anchored path leads to nothing new that was there.**  If it did, all directories on the way down to it were
there too, and the path would have led to it before. -/
theorem pathExists_of_target (hfs : fs.WellFormed) (hkeeps : fs.Keeps g) {p : Path} (hp : fs.Anchored p)
    {l : Location} {r : Route} {n : FileNode} {ifDots : FileError} (htarget : g.target p ifDots = .ok (l, r))
    (hdirectory : r.asDirectory = false) (hl : fs.node? l = some n) : fs.pathExists p = true := by
  obtain ⟨hroute, above, hfollow, -, hstep, rfl⟩ := target_eq_ok htarget
  have hroute' : fs.route p = .ok r := by rw [← hkeeps.route, hroute]
  obtain ⟨hstart, hbefore⟩ := route_eq_ok hroute'
  have habove : fs.node? above = some .directory := by
    have hdir := hfs _ _ hl
    rwa [List.dropLast_concat] at hdir
  obtain ⟨down, hdown, hnodots⟩ := exists_upToDots r.before
  obtain ⟨anchor, hanchor⟩ := hp
  rw [← hstart, ← hbefore] at hanchor
  -- Up to the anchor the way was there before, and from there it only leads down.
  have hlater := hfollow
  rw [hdown] at hlater
  obtain ⟨middle, hmiddle, hrest⟩ := follow_append_eq_ok.1 hlater
  obtain rfl := Except.ok.inj (hmiddle.symm.trans (hkeeps.follow hanchor))
  have hearlier : fs.follow r.start r.before = .ok above := by
    rw [hdown]
    exact follow_append_eq_ok.2 ⟨middle, hanchor, follow_of_prefix hfs hnodots habove hrest⟩
  have hlast : fs.follow above [r.last] = .ok (above ++ [r.last]) :=
    follow_cons_eq_ok.2 ⟨habove, _, hstep, rfl⟩
  have hlocate := locate_eq_ok.2 ⟨r, hroute', follow_append_eq_ok.2 ⟨above, hearlier, hlast⟩, by simp [hdirectory]⟩
  unfold pathExists
  rw [get_eq_ok.2 ⟨_, hlocate, hl⟩]
  rfl

/-- **What is written where nothing was is new**, if the path is anchored. -/
theorem addsFile_of_write (hfs : fs.WellFormed) (hadds : fs.AddsDirectories g) {p : Path} (hp : fs.Anchored p)
    (hfree : fs.pathExists p = false) {content : Bytes} (h : g.write p content = .ok k) :
    ∃ l, fs.AddsFile k p l content := by
  unfold write at h
  obtain ⟨⟨l, r⟩, htarget, h⟩ := Except.bind_eq_ok.1 h
  dsimp only at h
  split at h
  · cases h
  rename_i hplain
  rw [not_or, Bool.not_eq_true] at hplain
  obtain rfl := Except.ok.inj h
  have hnew : fs.node? l = none := by
    cases hl : fs.node? l with
    | none => rfl
    | some n =>
      have hexists := pathExists_of_target hfs hadds.keeps hp htarget hplain.1 hl
      rw [hfree] at hexists
      cases hexists
  -- Nor has it become a file in between: nothing but directories was made.
  have hnew' : g.node? l = none := by
    cases hl : g.node? l with
    | none => rfl
    | some n =>
      rcases hadds.directories hl with hold | rfl
      · rw [hnew] at hold
        cases hold
      · exact absurd hl hplain.2
  have hlocate := locate_of_target htarget hplain.1
  obtain ⟨-, above, -, habove, -, rfl⟩ := target_eq_ok htarget
  have hne : above ++ [r.last] ≠ [] := by simp
  have hkeeps := Keeps.put hne hnew' (.file content)
  refine ⟨above ++ [r.last], hadds.keeps.trans hkeeps, (hadds.wellFormed hfs).put habove _ hnew', hnew,
    hkeeps.locate hlocate, ?_⟩
  rw [node?_put hne, if_pos rfl]

/-- **Writing where nothing is either adds a file or nothing but directories.** -/
theorem writeWithParents_cases (hfs : fs.WellFormed) {p : Path} (hp : fs.Anchored p)
    (hfree : fs.pathExists p = false) (content : Bytes) :
    (∃ e g, fs.writeWithParents p content = (.error e, g) ∧ fs.AddsDirectories g) ∨
      ∃ g l, fs.writeWithParents p content = (.ok (), g) ∧ fs.AddsFile g p l content := by
  have hadds := addsDirectories_createParents fs p
  unfold writeWithParents
  rcases hparents : fs.createParents p with ⟨e | u, made⟩
  · rw [hparents] at hadds
    exact .inl ⟨e, made, rfl, hadds⟩
  · rw [hparents] at hadds
    simp only
    cases hwrite : made.write p content with
    | error e => exact .inl ⟨e, made, rfl, hadds⟩
    | ok written =>
      obtain ⟨l, hl⟩ := addsFile_of_write hfs hadds hp hfree hwrite
      exact .inr ⟨written, l, rfl, hl⟩

end TableForest.FileSystem
