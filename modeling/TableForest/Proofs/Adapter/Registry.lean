import Mathlib.Data.List.Induction
import TableForest.Adapter.Indexed
import TableForest.Proofs.Binding.Candidates
import TableForest.Proofs.Dict

/-!
# What a registry knows

After any registrations every name that was registered stands once, at the place of its first registration, and
there stands the adapter that was registered under it last.  An index of slots finds the same adapters in the
same places.

## The architecture

* **`Registry.place`** adds one adapter; **`Registry.find?_place`** and **`Registry.map_place`** say what it does
  to the look-ups and to the names.
* **`Registry.Lists`** is what is known of the adapters of one sort after a history; **`Registry.lists_placeAll`**
  gets there registration by registration.
* **`IndexedRow.Holds`** says that an index agrees with its row; a registration keeps that up
  (**`IndexedRow.Holds.register`**).
* **`Registry.known_of_history`** puts readers, writers and the index together.
-/

namespace TableForest

namespace Registry

variable {α : Type} {name : α → String}

/-! ## One registration -/

/-- What is placed is found by its name, and everything else as before. -/
theorem find?_place (x : α) (xs : List α) (n : String) :
    (place name x xs).find? (name · = n) = if name x = n then some x else xs.find? (name · = n) := by
  induction xs with
  | nil => by_cases hn : name x = n <;> simp [place, hn]
  | cons y rest ih =>
    unfold place
    by_cases hy : name y = name x
    · rw [if_pos hy, List.find?_cons, List.find?_cons]
      by_cases hn : name x = n <;> simp [hy, hn]
    · rw [if_neg hy, List.find?_cons, List.find?_cons, ih]
      by_cases hn : name y = n
      · have hx : ¬name x = n := fun h => hy (hn.trans h.symm)
        simp [hn, hx]
      · simp [hn]

theorem place_of_new {x : α} {xs : List α} (h : name x ∉ xs.map name) : place name x xs = xs ++ [x] := by
  induction xs with
  | nil => rfl
  | cons y rest ih =>
    rw [List.map_cons, List.mem_cons, not_or] at h
    rw [place, if_neg (Ne.symm h.1), ih h.2, List.cons_append]

/-- An adapter takes the slot of its name. -/
theorem place_of_taken {x y : α} {xs : List α} (hapart : (xs.map name).Nodup) {i : Nat} (hi : xs[i]? = some y)
    (hy : name y = name x) : place name x xs = xs.set i x := by
  induction xs generalizing i with
  | nil => simp at hi
  | cons z rest ih =>
    rw [List.map_cons, List.nodup_cons] at hapart
    cases i with
    | zero =>
      obtain rfl := Option.some.inj hi
      rw [place, if_pos hy, List.set_cons_zero]
    | succ i =>
      rw [List.getElem?_cons_succ] at hi
      -- the name stands behind the first element, so it is not that of the first
      have hz : ¬name z = name x := by
        intro heq
        refine hapart.1 ?_
        rw [heq, ← hy]
        exact List.mem_map_of_mem (List.mem_of_getElem? hi)
      rw [place, if_neg hz, ih hapart.2 hi, List.set_cons_succ]

/-! ## A history -/

/-- Adapters of one sort after registrations: `kept` stand in the registry, and `find?` finds them by name. -/
structure Lists (name : α → String) (log kept : List α) (find? : String → Option α) : Prop where
  /-- Every name that was registered stands once, in the order of first registrations. -/
  names : kept.map name = (log.map name).eraseDups
  apart : (kept.map name).Nodup
  /-- Later registrations move no name. -/
  settled : ∀ earlier later, log = earlier ++ later → (earlier.map name).eraseDups <+: kept.map name
  /-- Of the adapters of one name the last counts. -/
  latest : ∀ n, find? n = log.reverse.find? (name · = n)
  unknown : ∀ n, find? n = none ↔ n ∉ log.map name
  /-- The last adapter of a name stands at the place of the first. -/
  placed : ∀ n ∈ log.map name, kept[(log.map name).eraseDups.idxOf n]? = find? n
  /-- No adapter that has given way stands anywhere. -/
  current : ∀ x ∈ kept, find? (name x) = some x

/-- The adapters of one sort after they have been placed one after the other. -/
def placeAll (name : α → String) (log : List α) : List α :=
  log.foldl (fun xs x => place name x xs) []

theorem placeAll_append_singleton (log : List α) (x : α) :
    placeAll name (log ++ [x]) = place name x (placeAll name log) := by
  rw [placeAll, List.foldl_append]
  rfl

theorem nodup_map_placeAll (log : List α) : ((placeAll name log).map name).Nodup := by
  induction log using List.reverseRecOn with
  | nil => exact List.nodup_nil
  | append_singleton log x ih =>
    rw [placeAll_append_singleton]
    exact nodup_map_place ih x

theorem map_placeAll (log : List α) : (placeAll name log).map name = (log.map name).eraseDups := by
  induction log using List.reverseRecOn with
  | nil => rfl
  | append_singleton log x ih =>
    rw [placeAll_append_singleton, map_place, ih, List.map_append, List.eraseDups_append, List.map_singleton]
    -- a name is new if it is none of those before
    by_cases hx : name x ∈ log.map name
    · have hold : [name x].removeAll (log.map name) = [] := by simpa [List.removeAll] using hx
      rw [if_pos (List.mem_eraseDups.2 hx), hold, List.eraseDups_nil, List.append_nil]
    · have hnew : [name x].removeAll (log.map name) = [name x] := by simpa [List.removeAll] using hx
      rw [if_neg (fun h => hx (List.mem_eraseDups.1 h)), hnew]
      rfl

theorem find?_placeAll (log : List α) (n : String) :
    (placeAll name log).find? (name · = n) = log.reverse.find? (name · = n) := by
  induction log using List.reverseRecOn with
  | nil => rfl
  | append_singleton log x ih =>
    rw [placeAll_append_singleton, find?_place, ih, List.reverse_append, List.reverse_singleton, List.singleton_append,
      List.find?_cons]
    by_cases hn : name x = n <;> simp [hn]

/-- With names apart an element is found by its name. -/
theorem find?_of_getElem? {xs : List α} (hapart : (xs.map name).Nodup) {i : Nat} {x : α} (hi : xs[i]? = some x) :
    xs.find? (name · = name x) = some x := by
  have hmem := List.mem_of_getElem? hi
  cases hfind : xs.find? (name · = name x) with
  | none => exact absurd (decide_eq_true rfl) (List.find?_eq_none.1 hfind x hmem)
  | some y =>
    have hy : name y = name x := by simpa using List.find?_some hfind
    rw [List.inj_on_of_nodup_map hapart (List.mem_of_find?_eq_some hfind) hmem hy]

/-- **Placing adapters one after the other** keeps the places of names and the last adapter of each. -/
theorem lists_placeAll (log : List α) :
    Lists name log (placeAll name log) fun n => (placeAll name log).find? (name · = n) where
  names := map_placeAll log
  apart := nodup_map_placeAll log
  -- later registrations stand behind the names that were there before
  settled := by
    rintro earlier later rfl
    rw [map_placeAll, List.map_append, List.eraseDups_append]
    exact List.prefix_append _ _
  latest := find?_placeAll log
  unknown := by
    intro n
    rw [← List.mem_eraseDups, ← map_placeAll, List.find?_eq_none]
    simp
  -- a name stands where it was registered first, with the adapter that was registered last
  placed := by
    intro n hn
    rw [← map_placeAll]
    have hmem : n ∈ (placeAll name log).map name := by
      rw [map_placeAll]
      exact List.mem_eraseDups.2 hn
    have hname := List.getElem?_idxOf hmem
    rw [List.getElem?_map] at hname
    obtain ⟨x, hx, rfl⟩ := Option.map_eq_some_iff.1 hname
    rw [hx, find?_of_getElem? (nodup_map_placeAll log) hx]
  current := by
    intro x hx
    obtain ⟨i, hi⟩ := List.mem_iff_getElem?.1 hx
    exact find?_of_getElem? (nodup_map_placeAll log) hi

theorem registerAll_append (r : Registry) (earlier later : List Registration) :
    r.registerAll (earlier ++ later) = (r.registerAll earlier).registerAll later :=
  List.foldl_append

/-- Readers and writers are registered apart from each other. -/
theorem registerAll_eq (history : List Registration) :
    Registry.empty.registerAll history =
      ⟨placeAll (·.info.name) (history.filterMap Registration.reader?),
        placeAll (·.info.name) (history.filterMap Registration.writer?)⟩ := by
  -- readers and writers are registered by turns, but each list sees only its own
  induction history using List.reverseRecOn with
  | nil => rfl
  | append_singleton history entry ih =>
    rw [registerAll_append, ih, List.filterMap_append, List.filterMap_append]
    cases entry with
    | reader x =>
      simp only [List.filterMap_cons, Registration.reader?, Registration.writer?, List.filterMap_nil, List.append_nil]
      rw [placeAll_append_singleton]
      rfl
    | writer x =>
      simp only [List.filterMap_cons, Registration.reader?, Registration.writer?, List.filterMap_nil, List.append_nil]
      rw [placeAll_append_singleton]
      rfl

/-- The built-in registry is one that adapters were registered in. -/
theorem registerAll_builtin : Registry.empty.registerAll Registration.builtin = Registry.builtin := by
  unfold Registration.builtin registerAll
  rw [List.foldl_append, List.foldl_map, List.foldl_map]
  rfl

end Registry

/-! ## The index -/

namespace IndexedRow

variable {α : Type} {name : α → String} {row : IndexedRow α} {xs : List α}

/-- The row holds elements, and its index leads from each name to where an element of that name stands. -/
structure Holds (name : α → String) (row : IndexedRow α) (xs : List α) : Prop where
  items : row.items = xs
  index : ∀ n i, row.index.get? n = some i ↔ ∃ x, xs[i]? = some x ∧ name x = n

/-- The slot of a name is what the index says. -/
theorem map_val_slot? (row : IndexedRow α) (n : String) : (row.slot? n).map Fin.val = row.index.get? n := by
  unfold slot?
  split
  · rename_i i hi
    exact hi.symm
  · rename_i hnone
    exact hnone.symm

namespace Holds

theorem empty : Holds name (.empty : IndexedRow α) [] where
  items := rfl
  index := fun n i => ⟨nofun, fun ⟨x, hx, _⟩ => by simp at hx⟩

/-- A name without a slot is the name of no element. -/
theorem not_mem_of_slot? (h : row.Holds name xs) {n : String} (hnone : row.slot? n = none) : n ∉ xs.map name := by
  intro hmem
  obtain ⟨x, hx, rfl⟩ := List.mem_map.1 hmem
  obtain ⟨i, hi⟩ := List.mem_iff_getElem?.1 hx
  have hslot := (h.index (name x) i).2 ⟨x, hi, rfl⟩
  rw [← map_val_slot?, hnone] at hslot
  cases hslot

theorem exists_of_slot? (h : row.Holds name xs) {n : String} {slot : Fin row.items.length}
    (hslot : row.slot? n = some slot) : ∃ x, xs[slot.val]? = some x ∧ name x = n := by
  refine (h.index n slot).1 ?_
  rw [← map_val_slot?, hslot]
  rfl

/-- **The index finds what a search by name finds.** -/
theorem find?_eq (h : row.Holds name xs) (hapart : (xs.map name).Nodup) (n : String) :
    row.find? n = xs.find? (name · = n) := by
  unfold IndexedRow.find?
  cases hslot : row.slot? n with
  | none =>
    have hnone := h.not_mem_of_slot? hslot
    rw [Option.map_none, eq_comm, List.find?_eq_none]
    intro x hx hn
    exact hnone (List.mem_map.2 ⟨x, hx, of_decide_eq_true hn⟩)
  | some slot =>
    obtain ⟨x, hx, rfl⟩ := h.exists_of_slot? hslot
    have hitem : row.items[slot] = x := by
      have hget := hx
      rw [← h.items] at hget
      exact (List.getElem?_eq_some_iff.1 hget).2
    rw [Option.map_some, hitem, Registry.find?_of_getElem? hapart hx]

/-- **A registration keeps the index in step with the row.** -/
theorem register (h : row.Holds name xs) (hapart : (xs.map name).Nodup) (x : α) :
    (row.register name x).Holds name (Registry.place name x xs) := by
  unfold IndexedRow.register
  cases hslot : row.slot? (name x) with
  | some slot =>
    -- the element of the slot gives way, and the names stay
    obtain ⟨y, hy, hname⟩ := h.exists_of_slot? hslot
    rw [Registry.place_of_taken hapart hy hname]
    refine ⟨congrArg (·.set slot.val x) h.items, fun n i => (h.index n i).trans ?_⟩
    rw [List.getElem?_set]
    have hlt : slot.val < xs.length := (List.getElem?_eq_some_iff.1 hy).1
    by_cases hi : slot.val = i
    · rw [if_pos hi, if_pos hlt, ← hi, hy]
      simp [hname]
    · rw [if_neg hi]
  | none =>
    -- the name is new, and so is its slot
    have hnew := h.not_mem_of_slot? hslot
    rw [Registry.place_of_new hnew]
    refine ⟨congrArg (· ++ [x]) h.items, fun n i => ?_⟩
    rw [Dict.get?_insert, h.items]
    by_cases hn : n = name x
    · rw [if_pos hn, Option.some.injEq, hn]
      constructor
      · rintro rfl
        exact ⟨x, by simp, rfl⟩
      · rintro ⟨y, hy, hname⟩
        rw [List.getElem?_append] at hy
        split at hy
        · exact absurd (List.mem_map.2 ⟨y, List.mem_of_getElem? hy, hname⟩) hnew
        · rename_i hge
          have hlt := (List.getElem?_eq_some_iff.1 hy).1
          rw [List.length_singleton] at hlt
          omega
    · rw [if_neg hn, h.index]
      refine exists_congr fun y => and_congr_left fun hname => ?_
      rw [List.getElem?_append]
      split
      · rfl
      · rename_i hge
        -- behind the others stands nothing but the new element
        rw [List.getElem?_eq_none (by omega)]
        refine ⟨nofun, fun hy => ?_⟩
        obtain rfl := List.mem_singleton.1 (List.mem_of_getElem? hy)
        exact absurd hname.symm hn

end Holds

end IndexedRow

/-- The indexed registry holds the adapters of a registry. -/
structure IndexedRegistry.Holds (s : IndexedRegistry) (r : Registry) : Prop where
  readers : s.readers.Holds (·.info.name) r.readers
  writers : s.writers.Holds (·.info.name) r.writers

/-- **A registration is the same with and without an index.** -/
theorem IndexedRegistry.Holds.register {s : IndexedRegistry} {r : Registry} (h : s.Holds r) (hapart : r.NamesApart)
    (entry : Registration) : (s.register entry).Holds (r.register entry) := by
  cases entry with
  | reader x => exact ⟨h.readers.register hapart.readers x, h.writers⟩
  | writer x => exact ⟨h.readers, h.writers.register hapart.writers x⟩

theorem Registry.NamesApart.register {r : Registry} (h : r.NamesApart) (entry : Registration) :
    (r.register entry).NamesApart := by
  cases entry with
  | reader x => exact h.registerReader x
  | writer x => exact h.registerWriter x

/-- However many adapters are registered, the index stays in step. -/
theorem IndexedRegistry.Holds.registerAll {s : IndexedRegistry} {r : Registry} (h : s.Holds r)
    (hapart : r.NamesApart) (history : List Registration) :
    (s.registerAll history).Holds (r.registerAll history) ∧ (r.registerAll history).NamesApart := by
  induction history generalizing s r with
  | nil => exact ⟨h, hapart⟩
  | cons entry rest ih => exact ih (h.register hapart entry) (hapart.register entry)

/-! ## Registries -/

/-- What a registry knows after registrations. -/
structure Registry.Known (r : Registry) (log : List Registration) : Prop where
  readers : Lists (·.info.name) (log.filterMap Registration.reader?) r.readers r.reader?
  writers : Lists (·.info.name) (log.filterMap Registration.writer?) r.writers r.writer?
  /-- What is offered for something are the adapters that fit, in their order. -/
  readersFor : ∀ kind subtype, r.readersFor kind subtype =
    r.readers.filter fun x => x.info.kind = kind ∧ x.info.subtypes.Covers subtype
  readersProducing : ∀ type, r.readersProducing type = r.readers.filter fun x => x.info.type = type
  writersConsuming : ∀ type, r.writersConsuming type = r.writers.filter fun x => x.info.type = type
  /-- An adapter that has given way is not offered. -/
  offeredReader : ∀ x kind subtype type, x ∈ r.readersFor kind subtype ∨ x ∈ r.readersProducing type →
    r.reader? x.info.name = some x
  offeredWriter : ∀ x type, x ∈ r.writersConsuming type → r.writer? x.info.name = some x
  /-- The index of slots is in step. -/
  indexed : (IndexedRegistry.empty.registerAll log).Holds r
  indexedReader : ∀ n, (IndexedRegistry.empty.registerAll log).reader? n = r.reader? n
  indexedWriter : ∀ n, (IndexedRegistry.empty.registerAll log).writer? n = r.writer? n

theorem Registry.known_registerAll (log : List Registration) : (Registry.empty.registerAll log).Known log := by
  have hreaders := @lists_placeAll Reader (fun x => x.info.name) (log.filterMap Registration.reader?)
  have hwriters := @lists_placeAll Writer (fun x => x.info.name) (log.filterMap Registration.writer?)
  have hempty : IndexedRegistry.empty.Holds Registry.empty := ⟨.empty, .empty⟩
  obtain ⟨hindexed, hapart⟩ := hempty.registerAll .empty log
  -- the registry is what its two histories say, and the indexed one answers as it does
  rw [registerAll_eq] at hindexed hapart ⊢
  exact {
    readers := hreaders
    writers := hwriters
    readersFor := fun kind subtype => by
      refine List.filter_congr fun x _ => ?_
      rw [Bool.eq_iff_iff, ReaderInfo.accepts, Bool.and_eq_true, TagSet.accepts_iff]
      simp
    readersProducing := fun _ => rfl
    writersConsuming := fun _ => rfl
    offeredReader := by
      rintro x kind subtype type (hx | hx)
      · exact hreaders.current x (List.mem_of_mem_filter hx)
      · exact hreaders.current x (List.mem_of_mem_filter hx)
    offeredWriter := fun x type hx => hwriters.current x (List.mem_of_mem_filter hx)
    indexed := hindexed
    indexedReader := fun n => hindexed.readers.find?_eq hapart.readers n
    indexedWriter := fun n => hindexed.writers.find?_eq hapart.writers n }

/-- **What a registry knows after any registrations**, whether it starts without adapters or with the built-in
ones.  Names are apart and stand in the order of their first registrations.  Under each name the adapter that was
registered last is found, at the place of the first, and nothing under a name that was never registered.  Readers
and writers do not touch each other.  What is offered are the adapters that fit, in the same order, and none that
has given way.  An index of slots that is kept up along the way finds the same adapters in the same places. -/
theorem Registry.known_of_history (history : List Registration) :
    (Registry.empty.registerAll history).Known history ∧
      (Registry.builtin.registerAll history).Known (Registration.builtin ++ history) := by
  refine ⟨known_registerAll history, ?_⟩
  rw [← registerAll_builtin, ← registerAll_append]
  exact known_registerAll _

end TableForest
