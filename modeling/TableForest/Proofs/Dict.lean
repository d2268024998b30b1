import Mathlib.Data.List.Induction
import TableForest.Dict

/-!
# Looking things up in dictionaries

What `Dict.get?` finds after each operation, and that a dictionary is read back from its own entries.  The
order of the entries matters for the latter only.
-/

namespace TableForest.Dict

variable {α : Type}

/-! ## Looking up after an operation -/

theorem lookup_cons_eq_ite (entry : String × α) (rest : List (String × α)) (key : String) :
    (entry :: rest).lookup key = if key = entry.1 then some entry.2 else rest.lookup key := by
  rw [List.lookup_cons]
  by_cases hkey : key = entry.1
  · simp [hkey]
  · rw [beq_false_of_ne hkey, if_neg hkey]

theorem lookup_put (key other : String) (value : α) (entries : List (String × α)) :
    (put key value entries).lookup other
      = if other = key then some value else entries.lookup other := by
  -- the entries are in order, so the new one goes in front of the first greater key or replaces its own
  induction entries with
  | nil => rw [put, lookup_cons_eq_ite]
  | cons entry rest ih =>
    unfold put
    split
    · rw [lookup_cons_eq_ite]
    · split
      · rename_i hsame
        rw [lookup_cons_eq_ite, lookup_cons_eq_ite, ← hsame]
        by_cases hkey : other = key
        · rw [if_pos hkey, if_pos hkey]
        · rw [if_neg hkey, if_neg hkey, if_neg hkey]
      · rename_i hdifferent
        rw [lookup_cons_eq_ite, lookup_cons_eq_ite, ih]
        by_cases hkey : other = key
        · rw [if_pos hkey, if_pos hkey, if_neg (hkey ▸ hdifferent)]
        · rw [if_neg hkey, if_neg hkey]

/-- What is put under a key is found there, and everything else where it was. -/
theorem get?_insert (d : Dict α) (key other : String) (value : α) :
    (d.insert key value).get? other = if other = key then some value else d.get? other :=
  lookup_put key other value d.entries

@[simp] theorem get?_insert_self (d : Dict α) (key : String) (value : α) :
    (d.insert key value).get? key = some value := by
  rw [get?_insert, if_pos rfl]

theorem get?_insert_of_ne (d : Dict α) {key other : String} (value : α) (h : other ≠ key) :
    (d.insert key value).get? other = d.get? other := by
  rw [get?_insert, if_neg h]

@[simp] theorem get?_empty (key : String) : (empty : Dict α).get? key = none := rfl

theorem get?_erase_of_ne (d : Dict α) {key other : String} (h : other ≠ key) :
    (d.erase key).get? other = d.get? other := by
  have hfilter : ∀ entries : List (String × α),
      (entries.filter (·.1 ≠ key)).lookup other = entries.lookup other := by
    intro entries
    induction entries with
    | nil => rfl
    | cons entry rest ih =>
      rw [List.filter_cons]
      split
      · rw [lookup_cons_eq_ite, lookup_cons_eq_ite, ih]
      · rename_i hentry
        have hkey : entry.1 = key := by simpa using hentry
        rw [lookup_cons_eq_ite, if_neg (hkey ▸ h), ih]
  exact hfilter d.entries

/-- Of entries with one key the last is found. -/
theorem get?_ofList (entries : List (String × α)) (key : String) :
    (ofList entries).get? key = entries.reverse.lookup key := by
  induction entries using List.reverseRecOn with
  | nil => rfl
  | append_singleton entries entry ih =>
    have hinsert : ofList (entries ++ [entry]) = (ofList entries).insert entry.1 entry.2 := by
      unfold ofList
      rw [List.foldl_append]
      rfl
    rw [hinsert, get?_insert, ih, List.reverse_append, List.reverse_singleton, List.singleton_append,
      lookup_cons_eq_ite]

/-! ## Look-ups determine the entries -/

theorem mem_of_lookup {key : String} {value : α} :
    ∀ {entries : List (String × α)}, entries.lookup key = some value → (key, value) ∈ entries
  | [], h => by cases h
  | entry :: rest, h => by
    rw [lookup_cons_eq_ite] at h
    split at h
    · rename_i hkey
      obtain rfl := Option.some.inj h
      exact hkey ▸ List.mem_cons_self
    · exact List.mem_cons_of_mem entry (mem_of_lookup h)

/-- Only what is no key is not found. -/
theorem lookup_eq_none {key : String} {entries : List (String × α)} :
    entries.lookup key = none ↔ key ∉ entries.map Prod.fst := by
  rw [List.lookup_eq_none_iff]
  constructor
  · intro h hkey
    obtain ⟨entry, hentry, rfl⟩ := List.mem_map.1 hkey
    simpa using h entry hentry
  · intro h entry hentry
    have hne : key ≠ entry.1 := fun heq => h (heq ▸ List.mem_map_of_mem hentry)
    simpa using hne

/-- In ascending order no key stands twice, so every entry is found. -/
theorem lookup_of_mem {key : String} {value : α} :
    ∀ {entries : List (String × α)}, Ascending entries → (key, value) ∈ entries →
      entries.lookup key = some value
  | [], _, h => absurd h List.not_mem_nil
  | entry :: rest, hascending, h => by
    obtain ⟨hfirst, hrest⟩ := List.pairwise_cons.1 hascending
    rw [lookup_cons_eq_ite]
    rcases List.mem_cons.1 h with rfl | h
    · rw [if_pos rfl]
    · have hbelow : entry.1 < key := hfirst (key, value) h
      have hne : key ≠ entry.1 := by
        intro heq
        rw [← heq] at hbelow
        exact String.lt_irrefl key hbelow
      rw [if_neg hne, lookup_of_mem hrest h]

/-- Lists in ascending order with the same entries are equal. -/
theorem eq_of_ascending : ∀ {as bs : List (String × α)}, Ascending as → Ascending bs →
    (∀ e, e ∈ as ↔ e ∈ bs) → as = bs
  | [], [], _, _, _ => rfl
  | [], b :: _, _, _, h => absurd ((h b).2 List.mem_cons_self) List.not_mem_nil
  | a :: _, [], _, _, h => absurd ((h a).1 List.mem_cons_self) List.not_mem_nil
  | a :: as, b :: bs, ha, hb, h => by
    obtain ⟨hafirst, harest⟩ := List.pairwise_cons.1 ha
    obtain ⟨hbfirst, hbrest⟩ := List.pairwise_cons.1 hb
    -- the first entry of either list is among those of the other, so neither can be the greater
    have hab : a = b := by
      rcases List.mem_cons.1 ((h a).1 List.mem_cons_self) with heq | hmem
      · exact heq
      · rcases List.mem_cons.1 ((h b).2 List.mem_cons_self) with heq | hmem'
        · exact heq.symm
        · exact absurd (hafirst b hmem') (String.lt_asymm (hbfirst a hmem))
    subst hab
    have hne : ∀ {e : String × α}, a.1 < e.1 → e ≠ a := by
      rintro e hlt rfl
      exact String.lt_irrefl e.1 hlt
    congr 1
    refine eq_of_ascending harest hbrest fun e => ⟨fun he => ?_, fun he => ?_⟩
    · exact (List.mem_cons.1 ((h e).1 (List.mem_cons_of_mem a he))).resolve_left (hne (hafirst e he))
    · exact (List.mem_cons.1 ((h e).2 (List.mem_cons_of_mem a he))).resolve_left (hne (hbfirst e he))

theorem eq_of_entries {a b : Dict α} (h : a.entries = b.entries) : a = b := by
  cases a
  cases b
  cases h
  rfl

/-- Dictionaries in which the same is found are equal. -/
theorem eq_of_get? {a b : Dict α} (h : ∀ key, a.get? key = b.get? key) : a = b := by
  refine eq_of_entries (eq_of_ascending a.ascending b.ascending fun e => ⟨fun he => ?_, fun he => ?_⟩)
  · exact mem_of_lookup ((h e.1).symm.trans (lookup_of_mem a.ascending he))
  · exact mem_of_lookup ((h e.1).trans (lookup_of_mem b.ascending he))

/-! ## Reading entries back -/

/-- An entry whose key is above all others goes to the end. -/
theorem put_of_above {key : String} {value : α} :
    ∀ {entries : List (String × α)}, (∀ e ∈ entries, e.1 < key) →
      put key value entries = entries ++ [(key, value)]
  | [], _ => rfl
  | entry :: rest, h => by
    have hentry : entry.1 < key := h entry List.mem_cons_self
    have hrest : ∀ e ∈ rest, e.1 < key := fun e he => h e (List.mem_cons_of_mem entry he)
    rw [put, if_neg (String.lt_asymm hentry), if_neg (fun heq => ?_), put_of_above hrest]
    · rfl
    · exact String.lt_irrefl key (heq ▸ hentry)

theorem entries_foldl_insert (entries : List (String × α)) :
    ∀ d : Dict α, Ascending (d.entries ++ entries) →
      (entries.foldl (fun d entry => d.insert entry.1 entry.2) d).entries = d.entries ++ entries := by
  induction entries with
  | nil =>
    intro d _
    exact (List.append_nil _).symm
  | cons entry rest ih =>
    intro d h
    have hbelow : ∀ e ∈ d.entries, e.1 < entry.1 := by
      intro e he
      exact (List.pairwise_append.1 h).2.2 e he entry List.mem_cons_self
    have hput : (d.insert entry.1 entry.2).entries = d.entries ++ [entry] := put_of_above hbelow
    have happend : d.entries ++ entry :: rest = d.entries ++ [entry] ++ rest := by simp
    rw [List.foldl_cons, ih _ (by rw [hput, ← happend]; exact h), hput, ← happend]

/-- A dictionary is that of its entries. -/
theorem ofList_entries (d : Dict α) : ofList d.entries = d :=
  eq_of_entries (entries_foldl_insert d.entries empty d.ascending)

end TableForest.Dict
