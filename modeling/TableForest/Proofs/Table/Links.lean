import TableForest.Proofs.Number.Decimal
import TableForest.Proofs.Table.Place
import TableForest.Proofs.Text.Utf8

/-!
# New links are new

A column counts the links that are made for it, and the counter stands in the name of each.  Files may come and go
in between: it is the counter alone that keeps the links of a column apart.

## The architecture

* **`LinkNaming`** is what the names of a column's links are made of besides the counter, and names with different
  counters differ (**`LinkNaming.link?_injective`**).
* **`Table.Generates`** is one successful generation of a link, **`Generation.By`** what it does to the counter:
  some counter from the present one on is found, and the next one is stored.
* **`Table.LinkRun`** is a run of generations with anything else in between, as long as the column names its links
  as before and its counter is not set back.
* The last counter has no next one and is stored again.  **`LinkRun.distinct_iff_before_last`** says that this
  is the only thing that can go wrong, and **`repeated_at_last`** that it does.
-/

namespace TableForest

/-! ## Names -/

/-- What the names of new links are made of, besides the counter. -/
structure LinkNaming where
  policy : LinkPolicy
  baseDir : Option Path
  stem : String
  extension : Option String
  deriving DecidableEq

def LinkNaming.link? (naming : LinkNaming) (counter : UInt32) : Option Path :=
  naming.baseDir.map fun dir => naming.policy.compose dir naming.stem counter naming.extension

theorem Path.join_injective {base p q : Path} (habsolute : p.isAbsolute = q.isAbsolute)
    (h : base.join p = base.join q) : p = q := by
  have happend : ∀ start : Bytes, (⟨start ++ p.bytes⟩ : Path) = ⟨start ++ q.bytes⟩ → p = q := by
    intro start heq
    have hbytes : start ++ p.bytes = start ++ q.bytes := congrArg Path.bytes heq
    exact congrArg Path.mk (List.append_cancel_left hbytes)
  unfold join at h
  rw [habsolute] at h
  split at h
  · exact h
  split at h
  · exact happend _ h
  · refine happend (base.bytes ++ [slash]) ?_
    simpa using h

theorem Path.bytes_join_ne_nil {base p : Path} (h : p.bytes ≠ []) : (base.join p).bytes ≠ [] := by
  unfold join
  split
  · exact h
  · split
    · simp [h]
    · simp

/-- Something is shown of every path that is not empty. -/
theorem Path.text_ne_empty {p : Path} (h : p.bytes ≠ []) : p.text ≠ "" :=
  Utf8.lossy_ne_empty h

/-- What follows the first bytes of a path does not make it absolute, unless it starts with a slash. -/
theorem Path.isAbsolute_eq_of_front {p q : Path} {front s t : Bytes} (hp : p.bytes = front ++ s)
    (hq : q.bytes = front ++ t) (hs : s.head? ≠ some slash) (ht : t.head? ≠ some slash) :
    p.isAbsolute = q.isAbsolute := by
  unfold Path.isAbsolute
  rw [hp, hq]
  cases front with
  | cons first front => rfl
  | nil => rw [List.nil_append, List.nil_append, beq_eq_false_iff_ne.2 hs, beq_eq_false_iff_ne.2 ht]

namespace LinkPolicy

/-- A padded counter as it stands in a path. -/
def counterBytes (policy : LinkPolicy) (counter : UInt32) : Bytes :=
  Utf8.encode (String.ofList (Decimal.paddedChars policy.counterWidth.toNat counter.toNat))

theorem counterBytes_ne_nil (policy : LinkPolicy) (counter : UInt32) : policy.counterBytes counter ≠ [] := by
  intro h
  have hchars := congrArg String.toList (Utf8.encode_eq_nil.1 h)
  rw [String.toList_ofList] at hchars
  exact Decimal.paddedChars_ne_nil _ _ hchars

theorem counterBytes_injective {policy : LinkPolicy} {k m : UInt32}
    (h : policy.counterBytes k = policy.counterBytes m) : k = m :=
  UInt32.toNat_inj.1 (Decimal.paddedChars_injective (String.ofList_inj.1 (Utf8.encode_inj.1 h)))

/-- A counter has nothing but digits. -/
theorem ne_of_mem_counterBytes {policy : LinkPolicy} {counter : UInt32} {b : UInt8}
    (h : b ∈ policy.counterBytes counter) : b ≠ Path.dot ∧ b ≠ Path.slash := by
  obtain ⟨ds, hds, -⟩ := Decimal.exists_paddedChars policy.counterWidth.toNat counter.toNat
  have hdigits : ∀ d : Decimal.Digit, ∀ b ∈ String.utf8EncodeChar (Decimal.digitChar d),
      b ≠ Path.dot ∧ b ≠ Path.slash := by
    decide +kernel
  unfold counterBytes at h
  rw [hds, Utf8.encode_ofList, List.mem_flatMap] at h
  obtain ⟨c, hc, hb⟩ := h
  obtain ⟨d, -, rfl⟩ := List.mem_map.1 hc
  exact hdigits d b hb

theorem head?_counterBytes_append (policy : LinkPolicy) (counter : UInt32) (rest : Bytes) :
    (policy.counterBytes counter ++ rest).head? ≠ some Path.slash := by
  obtain ⟨b, bs, hbs⟩ := List.exists_cons_of_ne_nil (policy.counterBytes_ne_nil counter)
  have hb := (ne_of_mem_counterBytes (hbs ▸ List.mem_cons_self : b ∈ policy.counterBytes counter)).2
  rw [hbs, List.cons_append, List.head?_cons, ne_eq, Option.some_inj]
  exact hb

/-- **The bytes of a file name**: those of the counter stand between others that do not depend on it. -/
theorem encode_fileName (policy : LinkPolicy) (stem : String) (counter : UInt32) (extension : Option String) :
    Utf8.encode (policy.fileName stem counter extension) = Utf8.encode (stem ++ policy.separator) ++
      (policy.counterBytes counter ++ Utf8.encode (extensionText extension)) := by
  rw [fileName, Utf8.encode_append, Utf8.encode_append, List.append_assoc]
  rfl

/-- A file name has a counter at least. -/
theorem encode_fileName_ne_nil (policy : LinkPolicy) (stem : String) (counter : UInt32) (extension : Option String) :
    Utf8.encode (policy.fileName stem counter extension) ≠ [] := by
  rw [encode_fileName]
  simp [counterBytes_ne_nil]

theorem fileName_injective {policy : LinkPolicy} {stem : String} {extension : Option String} {k m : UInt32}
    (h : policy.fileName stem k extension = policy.fileName stem m extension) : k = m := by
  have hbytes := congrArg Utf8.encode h
  rw [encode_fileName, encode_fileName] at hbytes
  exact counterBytes_injective (List.append_cancel_right (List.append_cancel_left hbytes))

/-- Whether a file name is an absolute path does not depend on the counter. -/
theorem isAbsolute_fileName (policy : LinkPolicy) (stem : String) (extension : Option String) (k m : UInt32) :
    (Path.ofText (policy.fileName stem k extension)).isAbsolute =
      (Path.ofText (policy.fileName stem m extension)).isAbsolute :=
  Path.isAbsolute_eq_of_front (policy.encode_fileName stem k extension) (policy.encode_fileName stem m extension)
    (policy.head?_counterBytes_append _ _) (policy.head?_counterBytes_append _ _)

theorem bytes_compose_ne_nil (policy : LinkPolicy) (baseDir : Path) (stem : String) (counter : UInt32)
    (extension : Option String) : (policy.compose baseDir stem counter extension).bytes ≠ [] :=
  Path.bytes_join_ne_nil (policy.encode_fileName_ne_nil stem counter extension)

end LinkPolicy

/-- **Links with different counters differ.** -/
theorem LinkNaming.link?_injective {naming : LinkNaming} {k m : UInt32} {link : Path}
    (hk : naming.link? k = some link) (hm : naming.link? m = some link) : k = m := by
  obtain ⟨dir, hdir, hlink⟩ := Option.map_eq_some_iff.1 hk
  obtain ⟨dir', hdir', hlink'⟩ := Option.map_eq_some_iff.1 hm
  obtain rfl := Option.some.inj (hdir.symm.trans hdir')
  have hnames := Path.join_injective (LinkPolicy.isAbsolute_fileName _ _ _ k m) (hlink.trans hlink'.symm)
  exact LinkPolicy.fileName_injective (Utf8.encode_inj.1 (congrArg Path.bytes hnames))

/-! ## Counters -/

/-- The counter behind which there is none. -/
def lastCounter : UInt32 := 4294967295

theorem toNat_le_last (counter : UInt32) : counter.toNat ≤ lastCounter.toNat := by
  have hlt := counter.toNat_lt
  show counter.toNat ≤ 4294967295
  omega

namespace Table

theorem toNat_nextCounter {counter : UInt32} (h : counter ≠ lastCounter) :
    (nextCounter counter).toNat = counter.toNat + 1 := by
  have hle := toNat_le_last counter
  have hne : counter.toNat ≠ lastCounter.toNat := fun heq => h (UInt32.toNat_inj.1 heq)
  have hroom : counter.toNat + 1 < UInt32.size := by
    have hlast : lastCounter.toNat + 1 = UInt32.size := rfl
    omega
  unfold nextCounter
  rw [if_pos hroom, UInt32.toNat_add]
  exact Nat.mod_eq_of_lt hroom

theorem nextCounter_last : nextCounter lastCounter = lastCounter := by
  decide

theorem le_nextCounter (counter : UInt32) : counter.toNat ≤ (nextCounter counter).toNat := by
  by_cases h : counter = lastCounter
  · rw [h, nextCounter_last]
  · have hnext := toNat_nextCounter h
    omega

/-- **The counter that is found is free**, and it is none before the first that was tried. -/
theorem probe_eq_ok {isTaken : UInt32 → Bool} {maxProbe : UInt32} {attempts : Nat} {counter found : UInt32}
    (h : probe isTaken maxProbe attempts counter = .ok found) :
    counter.toNat ≤ found.toNat ∧ isTaken found = false := by
  fun_induction probe isTaken maxProbe attempts counter with
  | case1 attempts counter hfree =>
    obtain rfl := Except.ok.inj h
    exact ⟨Nat.le_refl _, by simpa using hfree⟩
  | case2 attempts counter htaken hmany => cases h
  | case3 attempts counter htaken hmany hroom ih =>
    obtain ⟨hle, hfree⟩ := ih h
    rw [UInt32.toNat_add, Nat.mod_eq_of_lt (show counter.toNat + (1 : UInt32).toNat < 2 ^ 32 from hroom)] at hle
    exact ⟨by omega, hfree⟩
  | case4 attempts counter htaken hmany hroom => cases h

/-! ## Generations -/

def linkNaming (t : Table) (info : ColumnInfo) : LinkNaming :=
  ⟨t.linkPolicy, info.link.baseDir, info.linkStem, info.link.extension⟩

/-- A new link is free, and its counter is the present one or a later one. -/
theorem nextLink_eq_ok {t : Table} {pathExists : Path → Bool} {info : ColumnInfo} {link : Path} {after : UInt32}
    (h : t.nextLink pathExists info = .ok (link, after)) :
    ∃ found, info.link.counter.toNat ≤ found.toNat ∧ (t.linkNaming info).link? found = some link ∧
      after = nextCounter found ∧ pathExists (t.resolve link) = false := by
  unfold nextLink at h
  split at h
  · cases h
  split at h
  · cases h
  rename_i hkind dir hdir
  simp only at h
  split at h
  · cases h
  rename_i found hfound
  -- the probe goes upwards from the stored counter, and stops where nothing exists
  obtain ⟨hle, hfree⟩ := probe_eq_ok hfound
  obtain ⟨rfl, rfl⟩ := Prod.mk.inj (Except.ok.inj h)
  refine ⟨found, hle, ?_, rfl, hfree⟩
  unfold LinkNaming.link? linkNaming
  rw [hdir]
  rfl

/-- A column of file links with a directory gets a link, as long as there are names left. -/
theorem nextLink_cases (t : Table) {info : ColumnInfo} (hkind : info.kind = .fileLink) {dir : Path}
    (hdir : info.link.baseDir = some dir) (pathExists : Path → Bool) :
    (∃ attempts, t.nextLink pathExists info = .error (.link (.probeExhausted info.name attempts))) ∨
      ∃ link counter, t.nextLink pathExists info = .ok (link, counter) ∧
        (linkCell info link).link? = some link.text := by
  unfold nextLink
  rw [if_neg (not_not_intro hkind), hdir]
  dsimp only
  split
  · rename_i attempts _
    exact .inl ⟨attempts, rfl⟩
  · refine .inr ⟨_, _, rfl, ?_⟩
    have hname : ∀ counter, (t.linkAt info dir counter).text ≠ "" := fun counter =>
      Path.text_ne_empty (LinkPolicy.bytes_compose_ne_nil _ _ _ _ _)
    simp [linkCell, Cell.link?, Value.asLink?, hname]

/-- What a column names its links by, and its counter. -/
def linkState? (t : Table) (column : Nat) : Option (LinkNaming × UInt32) :=
  (t.columns[column]?).map fun c => (t.linkNaming c.info, c.info.link.counter)

theorem linkState?_setCounter (t : Table) (column : Nat) (counter : UInt32) :
    (t.setCounter column counter).linkState? column = (t.linkState? column).map fun s => (s.1, counter) := by
  unfold linkState?
  rw [getElem?_setCounter, if_pos rfl]
  cases t.columns[column]? <;> rfl

theorem linkState?_putCell (t : Table) (column row : Nat) (c : Cell) (i : Nat) :
    (t.putCell column row c).linkState? i = t.linkState? i := by
  unfold linkState?
  rw [getElem?_putCell]
  split
  · cases t.columns[i]? <;> rfl
  · rfl

/-- A link is made for a column: either a cell is given it, whatever was in the cell, or a change of an empty cell
finds it there. -/
inductive Generates (t : Table) (column : Nat) (link : Path) (t' : Table) : Prop
  | made {pathExists : Path → Bool} {row : Nat} (made : t.makeDefaultLink pathExists column row = (.ok link, t'))
  | linked {ε σ : Type} {pathExists : Path → Bool} {row : Nat} {wrap : TableError → ε} {edit : CellEdit ε σ}
      {s s' : σ} {col : Column} {c : Cell} {after : UInt32} (place : t.place column row = .ok (col, c))
      (empty : c.link? = none) (next : t.nextLink pathExists col.info = .ok (link, after))
      (linked : t.updateLinkedCell pathExists column row wrap edit s = (.ok (), t', s'))

end Table

/-- A link that was made, and the counter of its column before and after. -/
structure Generation where
  link : Path
  before : UInt32
  after : UInt32

/-- The link has a counter from the one before on, and the counter after is the next one. -/
def Generation.By (naming : LinkNaming) (g : Generation) : Prop :=
  ∃ found, g.before.toNat ≤ found.toNat ∧ naming.link? found = some g.link ∧ g.after = Table.nextCounter found

/-- **The counter moves on unless it is the last.** -/
theorem Generation.By.before_lt_after {naming : LinkNaming} {g : Generation} (h : g.By naming) :
    g.before.toNat < g.after.toNat ↔ g.before ≠ lastCounter := by
  obtain ⟨found, hle, -, hafter⟩ := h
  have hlast := toNat_le_last found
  rw [hafter]
  constructor
  · intro hlt hbefore
    rw [hbefore] at hle hlt
    obtain rfl : found = lastCounter := UInt32.toNat_inj.1 (Nat.le_antisymm hlast hle)
    rw [Table.nextCounter_last] at hlt
    exact Nat.lt_irrefl _ hlt
  · intro hbefore
    by_cases hfound : found = lastCounter
    · -- Names up to the last were taken: the counter has moved there.
      have hne : g.before.toNat ≠ lastCounter.toNat := fun heq => hbefore (UInt32.toNat_inj.1 heq)
      have hg := toNat_le_last g.before
      rw [hfound, Table.nextCounter_last]
      omega
    · have hnext := Table.toNat_nextCounter hfound
      omega

theorem Generation.By.le_after {naming : LinkNaming} {g : Generation} (h : g.By naming) :
    g.before.toNat ≤ g.after.toNat := by
  obtain ⟨found, hle, -, hafter⟩ := h
  rw [hafter]
  exact Nat.le_trans hle (Table.le_nextCounter found)

namespace Table

/-- **What making a link does to its column**: the names are formed as before, and the counter moves. -/
theorem Generates.moves {t t' : Table} {column : Nat} {link : Path} (h : t.Generates column link t') :
    ∃ naming k k', t.linkState? column = some (naming, k) ∧ t'.linkState? column = some (naming, k') ∧
      Generation.By naming ⟨link, k, k'⟩ := by
  -- Either way a cell is put into its place, and then the counter is set.
  have hput : ∀ {col : Column} {pathExists : Path → Bool} {row : Nat} {cell : Cell} {after : UInt32},
      t.columns[column]? = some col → t.nextLink pathExists col.info = .ok (link, after) →
      t' = (t.putCell column row cell).setCounter column after →
      ∃ naming k k', t.linkState? column = some (naming, k) ∧ t'.linkState? column = some (naming, k') ∧
        Generation.By naming ⟨link, k, k'⟩ := by
    intro col pathExists row cell after hcol hnext ht'
    obtain ⟨found, hle, hlink, hafter, -⟩ := nextLink_eq_ok hnext
    have hstate : t.linkState? column = some (t.linkNaming col.info, col.info.link.counter) := by
      unfold linkState?
      rw [hcol]
      rfl
    refine ⟨_, _, after, hstate, ?_, found, hle, hlink, hafter⟩
    rw [ht', linkState?_setCounter, linkState?_putCell, hstate]
    rfl
  cases h with
  | @made pathExists row hmade =>
    unfold makeDefaultLink requiring at hmade
    split at hmade
    · rename_i place hplace
      obtain ⟨col, c⟩ := place
      obtain ⟨hcol, -, -⟩ := place_eq_ok hplace
      simp only at hmade
      split at hmade
      · rename_i next hnext
        obtain ⟨link', after⟩ := next
        obtain ⟨hlink, ht'⟩ := Prod.mk.inj hmade
        obtain rfl := Except.ok.inj hlink
        exact hput hcol hnext ht'.symm
      · cases hmade
    · cases hmade
  | @linked ε σ pathExists row wrap edit s s' col c after hplace hempty hnext hlinked =>
    obtain ⟨hcol, -, -⟩ := place_eq_ok hplace
    have hkind : col.info.kind = .fileLink := Shape.kind_of_nextLink hnext
    unfold updateLinkedCell at hlinked
    simp only [hplace, hkind, hempty, ne_eq, not_true_eq_false, Option.isSome_none, Bool.false_eq_true, or_self,
      if_false, hnext] at hlinked
    rcases commitCell_cases t col.info column row wrap (edit (linkCell col.info link) s).1 with
      ⟨e, hcommit⟩ | ⟨d, -, -, hcommit⟩
    · rw [hcommit] at hlinked
      cases hlinked
    · rw [hcommit] at hlinked
      cases hlinked
      exact hput hcol hnext rfl

/-! ## Runs -/

/-- Links are made for a column of a table, and other things are done in between, which may move the column to
another index but leave what its links are named by, and do not set its counter back. -/
inductive LinkRun : Table → Nat → List Generation → Prop
  | done (t : Table) (column : Nat) : LinkRun t column []
  | generates {t t' : Table} {column : Nat} {link : Path} {naming naming' : LinkNaming} {k k' : UInt32}
      {later : List Generation} (step : t.Generates column link t')
      (before : t.linkState? column = some (naming, k)) (after : t'.linkState? column = some (naming', k'))
      (rest : LinkRun t' column later) : LinkRun t column (⟨link, k, k'⟩ :: later)
  | performs {t : Table} {column : Nat} {naming : LinkNaming} {k k' : UInt32} {later : List Generation}
      (op : TableOperation) (column' : Nat) (before : t.linkState? column = some (naming, k))
      (after : (t.perform op).2.linkState? column' = some (naming, k')) (counter : k.toNat ≤ k'.toNat)
      (rest : LinkRun (t.perform op).2 column' later) : LinkRun t column later

namespace LinkRun

variable {t : Table} {column : Nat} {gens : List Generation}

/-- What is made later has no lower counter. -/
theorem forall_by (h : LinkRun t column gens) {naming : LinkNaming} {k : UInt32}
    (hstate : t.linkState? column = some (naming, k)) :
    ∀ g ∈ gens, k.toNat ≤ g.before.toNat ∧ g.By naming := by
  -- the counter of the column never falls, so what holds of one link holds of all behind it
  induction h generalizing naming k with
  | done => simp
  | generates hstep hbefore hafter _ ih =>
    obtain ⟨_, _, _, hstart, hend, hby⟩ := hstep.moves
    obtain ⟨rfl, rfl⟩ := Prod.mk.inj (Option.some.inj (hstate.symm.trans hstart))
    obtain ⟨-, rfl⟩ := Prod.mk.inj (Option.some.inj (hbefore.symm.trans hstate))
    -- the two states before and after a link are those of the column
    obtain ⟨rfl, rfl⟩ := Prod.mk.inj (Option.some.inj (hafter.symm.trans hend))
    have hmoves := hby.le_after
    refine List.forall_mem_cons.2 ⟨⟨Nat.le_refl _, hby⟩, fun g hg => ?_⟩
    obtain ⟨hle, hg⟩ := ih hafter g hg
    exact ⟨Nat.le_trans hmoves hle, hg⟩
  -- another operation may move the column, but not its counter back
  | performs op column' hbefore hafter hcounter _ ih =>
    obtain ⟨rfl, rfl⟩ := Prod.mk.inj (Option.some.inj (hbefore.symm.trans hstate))
    intro g hg
    obtain ⟨hle, hg⟩ := ih hafter g hg
    exact ⟨Nat.le_trans hcounter hle, hg⟩

theorem exists_by (h : LinkRun t column gens) : ∀ g ∈ gens, ∃ naming, g.By naming := by
  intro g hg
  cases h with
  | done => cases hg
  | generates hstep hbefore hafter hrest =>
    exact ⟨_, ((LinkRun.generates hstep hbefore hafter hrest).forall_by hbefore g hg).2⟩
  | performs op column' hbefore hafter hcounter hrest => exact ⟨_, (hrest.forall_by hafter g hg).2⟩

/-- **Links are different as long as none is made at the last counter.** -/
theorem pairwise_ne (h : LinkRun t column gens) (hlast : ∀ g ∈ gens, g.before ≠ lastCounter) :
    gens.Pairwise fun g g' => g.link ≠ g'.link := by
  induction h with
  | done => exact .nil
  | generates hstep hbefore hafter hrest ih =>
    rw [List.forall_mem_cons] at hlast
    refine List.pairwise_cons.2 ⟨fun g hg heq => ?_, ih hlast.2⟩
    obtain ⟨_, _, after, hstart, hend, found, -, hlink, hnext⟩ := hstep.moves
    obtain ⟨hle, found', hle', hlink', -⟩ := hrest.forall_by hend g hg
    -- The same link would have the same counter, and what is made later has a later one.
    rw [← heq] at hlink'
    obtain rfl := LinkNaming.link?_injective hlink hlink'
    rw [show after = nextCounter found from hnext] at hle
    by_cases hfound : found = lastCounter
    · rw [hfound, nextCounter_last] at hle
      exact hlast.2 g hg (UInt32.toNat_inj.1 (Nat.le_antisymm (toNat_le_last _) hle))
    · have hmoved := toNat_nextCounter hfound
      omega
  | performs _ _ _ _ _ _ ih => exact ih hlast

/-- **A run makes different links and moves the counter each time exactly if none of them is made at the last
counter.** -/
theorem distinct_iff_before_last (h : LinkRun t column gens) :
    ((gens.Pairwise fun g g' => g.link ≠ g'.link) ∧ ∀ g ∈ gens, g.before < g.after) ↔
      ∀ g ∈ gens, g.before ≠ lastCounter := by
  have hmoves : ∀ g ∈ gens, g.before < g.after ↔ g.before ≠ lastCounter := by
    intro g hg
    obtain ⟨naming, hby⟩ := h.exists_by g hg
    rw [UInt32.lt_iff_toNat_lt, hby.before_lt_after]
  constructor
  · exact fun hgens g hg => (hmoves g hg).1 (hgens.2 g hg)
  · exact fun hlast => ⟨h.pairwise_ne hlast, fun g hg => (hmoves g hg).2 (hlast g hg)⟩

end LinkRun

/-- Notes and traces of two measurements; the traces are files. -/
def traces (counter : UInt32) : Table :=
  (Table.empty "scan").run [.addColumn (.ofKind "note" .text), .addColumn (.ofKind "trace" .fileLink), .addRow,
    .addRow, .setLinkDefaults 1 ⟨some (.ofText "out"), none, some "txt", counter⟩]

/-- A table with a new link in a cell, where no file is in the way. -/
def traced (t : Table) (column row : Nat) : Table :=
  (t.makeDefaultLink (fun _ => false) column row).2

/-- The naming of `traces`. -/
def traceNaming : LinkNaming :=
  ⟨.standard, some (.ofText "out"), "trace", some "txt"⟩

/-- Two traces, between which the notes are removed. -/
theorem distinct_traces :
    ∃ gens, LinkRun (traces 7) 1 gens ∧
      gens.map Generation.link = [.ofText "out/trace-007.txt", .ofText "out/trace-008.txt"] ∧
      (∀ g ∈ gens, g.before ≠ lastCounter) ∧ (gens.Pairwise fun g g' => g.link ≠ g'.link) ∧
      ∀ g ∈ gens, g.before < g.after := by
  -- between the two links a column in front is removed, and the links go on in the moved one
  have hfirst : (traces 7).Generates 1 (.ofText "out/trace-007.txt") ((traces 7).traced 1 0) :=
    .made (Prod.ext (by decide +kernel) rfl)
  have hsecond : (((traces 7).traced 1 0).perform (.removeColumn 0)).2.Generates 0 (.ofText "out/trace-008.txt")
      ((((traces 7).traced 1 0).perform (.removeColumn 0)).2.traced 0 1) :=
    .made (Prod.ext (by decide +kernel) rfl)
  have hstart : (traces 7).linkState? 1 = some (traceNaming, 7) := by decide +kernel
  have hnext : ((traces 7).traced 1 0).linkState? 1 = some (traceNaming, 8) := by decide +kernel
  have hmoved : (((traces 7).traced 1 0).perform (.removeColumn 0)).2.linkState? 0 = some (traceNaming, 8) := by
    decide +kernel
  have hend : ((((traces 7).traced 1 0).perform (.removeColumn 0)).2.traced 0 1).linkState? 0 =
      some (traceNaming, 9) := by
    decide +kernel
  let gens : List Generation := [⟨.ofText "out/trace-007.txt", 7, 8⟩, ⟨.ofText "out/trace-008.txt", 8, 9⟩]
  have hrun : LinkRun (traces 7) 1 gens := .generates hfirst hstart hnext
    (.performs (.removeColumn 0) 0 hnext hmoved (Nat.le_refl _) (.generates hsecond hmoved hend (.done _ _)))
  have hlast : ∀ g ∈ gens, g.before ≠ lastCounter := by decide
  exact ⟨gens, hrun, rfl, hlast, hrun.distinct_iff_before_last.2 hlast⟩

/-- **A link is made twice at the last counter**, for two cells, and the counter stays. -/
theorem repeated_at_last :
    ∃ gens, LinkRun (traces lastCounter) 1 gens ∧
      gens.map Generation.link = [.ofText "out/trace-4294967295.txt", .ofText "out/trace-4294967295.txt"] ∧
      ¬(gens.Pairwise fun g g' => g.link ≠ g'.link) ∧ ¬∀ g ∈ gens, g.before < g.after := by
  -- the last counter is not advanced, so the second link is made from the same one
  have hfirst : (traces lastCounter).Generates 1 (.ofText "out/trace-4294967295.txt")
      ((traces lastCounter).traced 1 0) :=
    .made (Prod.ext (by decide +kernel) rfl)
  have hsecond : ((traces lastCounter).traced 1 0).Generates 1 (.ofText "out/trace-4294967295.txt")
      (((traces lastCounter).traced 1 0).traced 1 1) :=
    .made (Prod.ext (by decide +kernel) rfl)
  have hstart : (traces lastCounter).linkState? 1 = some (traceNaming, lastCounter) := by decide +kernel
  have hnext : ((traces lastCounter).traced 1 0).linkState? 1 = some (traceNaming, lastCounter) := by decide +kernel
  have hend : (((traces lastCounter).traced 1 0).traced 1 1).linkState? 1 = some (traceNaming, lastCounter) := by
    decide +kernel
  have hrun := LinkRun.generates hfirst hstart hnext (.generates hsecond hnext hend (.done _ _))
  refine ⟨_, hrun, rfl, ?_, ?_⟩
  · simp
  · simp [UInt32.lt_irrefl]

end Table
end TableForest
