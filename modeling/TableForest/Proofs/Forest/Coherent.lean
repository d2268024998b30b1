import TableForest.Proofs.Forest.Handles
import TableForest.Proofs.Forest.Walk

/-!
# The views of a forest agree

A forest says three times where a table stands: in the table's link to its parent, in the children of the parent
and in the roots.  **`Forest.Coherent`** says that the three agree, that every walk down and every way up comes to its
end, that a forest without roots is one without tables, and when a table can be removed.
**`coherent_of_history`** is the result for every forest that can be built, together with what becomes of the
handles.
-/

namespace TableForest.Forest

variable {f g : Forest}

/-! ## Places -/

theorem below?_unique (h : f.Linked) {id : TableId} {q q' : Option TableId} {ids : List TableId}
    (hparent : f.parentOf? id = some q) (hbelow : f.below? q' = some ids) (hmem : id ∈ ids) : q' = q := by
  have hparent' := (h.members hbelow id).1 hmem
  exact Option.some.inj (hparent'.symm.trans hparent)

/-- A table stands once in the list that it belongs to. -/
theorem exists_place (h : f.Linked) {id : TableId} {q : Option TableId} (hparent : f.parentOf? id = some q) :
    ∃ ids, f.below? q = some ids ∧ ids.count id = 1 := by
  obtain ⟨ids, hids⟩ : ∃ ids, f.below? q = some ids := by
    cases q with
    | none => exact ⟨f.roots, rfl⟩
    | some p => exact h.parents hparent
  have hmem := (h.members hids id).2 hparent
  exact ⟨ids, hids, List.count_eq_one_of_mem (h.nodup hids) hmem⟩

theorem not_mem_below?_of_unused (h : f.Linked) {id : TableId} (hunused : f.node? id = none)
    {q : Option TableId} {ids : List TableId} (hids : f.below? q = some ids) : id ∉ ids := by
  intro hmem
  have hparent := (h.members hids id).1 hmem
  obtain ⟨n, hn⟩ := exists_node?_of_parentOf? hparent
  rw [hunused] at hn
  cases hn

/-! ## Tables and roots -/

theorem size_eq_zero : f.size = 0 ↔ ∀ id, f.node? id = none := by
  unfold size
  rw [List.countP_eq_zero]
  constructor
  -- no place is counted, so none holds a table
  · intro hnone id
    cases hnode : f.node? id with
    | none => rfl
    | some n =>
      have hmem := List.mem_of_getElem? (node?_eq_some.1 hnode)
      exact absurd rfl (hnone _ hmem)
  -- a place that holds a table is the place of its handle
  · intro hnone place hmem
    cases place with
    | none => simp
    | some n =>
      obtain ⟨i, hi⟩ := List.mem_iff_getElem?.1 hmem
      have hnode : f.node? ⟨i⟩ = some n := node?_eq_some.2 hi
      rw [hnone] at hnode
      cases hnode

/-- **A forest without roots has no tables**, for every table is below a root. -/
theorem isEmpty_iff (h : f.Linked) : f.isEmpty = true ↔ f.size = 0 := by
  rw [size_eq_zero]
  unfold isEmpty
  rw [List.isEmpty_iff]
  constructor
  · intro hroots id
    cases hnode : f.node? id with
    | none => rfl
    | some n =>
      -- a table that is left has a root above it
      obtain ⟨r, hr, -⟩ := exists_root h hnode
      rw [hroots] at hr
      cases hr
  · intro hnone
    refine List.eq_nil_iff_forall_not_mem.2 fun r hr => ?_
    -- a root is a table in use
    obtain ⟨n, hn⟩ := exists_node?_of_parentOf? ((h.roots r).1 hr)
    rw [hnone] at hn
    cases hn

/-! ## Paths of names -/

theorem mapM_table_name {ids : List TableId} (hlive : ∀ id ∈ ids, ∃ n, f.node? id = some n) :
    ∃ names : List String, names.map some = ids.map (fun id => (f.tableOf? id).map Table.name) ∧
      ids.mapM (fun id => (f.table id).map Table.name) = .ok names := by
  induction ids with
  | nil => exact ⟨[], rfl, rfl⟩
  | cons id rest ih =>
    rw [List.forall_mem_cons] at hlive
    obtain ⟨n, hn⟩ := hlive.1
    obtain ⟨names, hnames, hmapM⟩ := ih hlive.2
    refine ⟨n.table.name :: names, ?_, ?_⟩
    · simp [hnames, tableOf?_of_node? hn]
    · rw [List.mapM_cons, hmapM, table_eq_ok.2 ⟨n, hn, rfl⟩]
      rfl

/-- The path of a table names the tables above it and the table itself, the root first. -/
theorem pathOf_eq_ok {id : TableId} {ids : List TableId} (habove : f.Above id ids)
    (hancestors : f.ancestors id = .ok ids) :
    ∃ names : List String, names.map some = (id :: ids).reverse.map (fun i => (f.tableOf? i).map Table.name) ∧
      f.pathOf id = .ok ("/".intercalate names) := by
  have hlive : ∀ i ∈ (id :: ids).reverse, ∃ n, f.node? i = some n := by
    intro i hi
    exact habove.node?_of_mem i (List.mem_reverse.1 hi)
  obtain ⟨names, hnames, hmapM⟩ := mapM_table_name hlive
  refine ⟨names, hnames, ?_⟩
  unfold pathOf
  rw [hancestors]
  simp only [bind, Except.bind]
  rw [hmapM]
  rfl

/-! ## Removals -/

theorem remove_of_children {id : TableId} {n : ForestNode} (hnode : f.node? id = some n) (hcs : n.children ≠ []) :
    f.remove id = .error (.hasChildren n.table.name n.children.length) := by
  have hfull : (!n.children.isEmpty) = true := by simpa using hcs
  unfold Forest.remove
  rw [node_eq_ok.2 hnode]
  simp only [bind, Except.bind, hfull, if_true]
  rfl

theorem remove_of_leaf (h : f.Linked) {id : TableId} {n : ForestNode} (hnode : f.node? id = some n)
    (hcs : n.children = []) : ∃ g, f.remove id = .ok (n.table, g) := by
  unfold Forest.remove
  rw [node_eq_ok.2 hnode]
  -- what is below the table is out of the way, and its parent is there to be changed
  simp only [bind, Except.bind, hcs]
  cases hp : n.parent with
  | none => exact ⟨_, rfl⟩
  | some p =>
    have hparent := parentOf?_of_node? hnode
    rw [hp] at hparent
    obtain ⟨cs, hcs⟩ := h.parents hparent
    obtain ⟨m, hm, -⟩ := Option.map_eq_some_iff.1 hcs
    have hunlink : f.unlink p id =
        .ok (f.modify p fun n => { n with children := n.children.filter (· ≠ id) }) := by
      unfold unlink
      rw [node_eq_ok.2 hm]
      rfl
    exact ⟨_, by simp only [hunlink]; rfl⟩

/-- **Children are what keeps a table from being removed.** -/
theorem remove_eq_hasChildren (h : f.Linked) (id : TableId) (name : String) (count : Nat) :
    f.remove id = .error (.hasChildren name count) ↔
      ∃ n, f.node? id = some n ∧ n.children ≠ [] ∧ name = n.table.name ∧ count = n.children.length := by
  constructor
  -- the failures of a removal are told apart by what stands at the handle
  · intro hremove
    cases hnode : f.node? id with
    | none =>
      have herror : f.remove id = .error (.unknownTable id) := by
        unfold Forest.remove node
        rw [hnode]
        rfl
      rw [herror] at hremove
      cases hremove
    | some n =>
      by_cases hcs : n.children = []
      · obtain ⟨g, hg⟩ := remove_of_leaf h hnode hcs
        rw [hg] at hremove
        cases hremove
      · rw [remove_of_children hnode hcs] at hremove
        cases hremove
        exact ⟨n, rfl, hcs, rfl, rfl⟩
  · rintro ⟨n, hnode, hcs, rfl, rfl⟩
    exact remove_of_children hnode hcs

/-! ## Forests that can be built -/

/-- **All that a forest says of a table agrees.**  The roots are what stands below no table. -/
structure Coherent (f : Forest) : Prop where
  /-- A table stands once among the children of its parent, or among the roots if it has none. -/
  stands : ∀ {id q}, f.parentOf? id = some q → ∃ ids, f.below? q = some ids ∧ ids.count id = 1
  /-- A table stands nowhere else. -/
  onlyThere : ∀ {id q}, f.parentOf? id = some q → ∀ q' ids, f.below? q' = some ids → id ∈ ids → q' = q
  /-- A handle that leads nowhere stands nowhere. -/
  unused : ∀ {id}, f.node? id = none → ∀ q ids, f.below? q = some ids → id ∉ ids
  older : ∀ {id p}, f.parentOf? id = some (some p) → p.index < id.index
  /-- A walk comes to its end, after it has met the table and all below it, each once. -/
  walks : ∀ {id n}, f.node? id = some n → ∃ v, f.walk id = .ok v ∧ f.Visits [id] v ∧ v.Nodup ∧
    ∀ other, other ∈ v ↔ f.IsBelow id other
  /-- The way up comes to its end at a root. -/
  climbs : ∀ {id n}, f.node? id = some n → ∃ ids, f.Above id ids ∧ f.ancestors id = .ok ids ∧
    f.depth id = .ok ids.length ∧ ∃ names : List String,
      names.map some = (id :: ids).reverse.map (fun i => (f.tableOf? i).map Table.name) ∧
      f.pathOf id = .ok ("/".intercalate names)
  isEmpty : f.isEmpty = true ↔ f.size = 0
  /-- A table with children is not removed, and nothing happens to the forest. -/
  hasChildren : ∀ id name count, f.remove id = .error (.hasChildren name count) ↔
    ∃ n, f.node? id = some n ∧ n.children ≠ [] ∧ name = n.table.name ∧ count = n.children.length
  kept : ∀ {id e}, f.remove id = .error e → f.perform (.remove id) = (false, f)
  /-- A table without children is. -/
  leaves : ∀ {id n}, f.node? id = some n → n.children = [] → ∃ g, f.remove id = .ok (n.table, g)

theorem Linked.coherent (h : f.Linked) : f.Coherent where
  stands := exists_place h
  onlyThere := fun hparent _ _ hids hmem => below?_unique h hparent hids hmem
  unused := fun hunused _ _ hids => not_mem_below?_of_unused h hunused hids
  older := h.older
  walks := walk_eq_ok h
  climbs := by
    intro id n hnode
    obtain ⟨ids, habove, hancestors, hdepth⟩ := ancestors_eq_ok h hnode
    exact ⟨ids, habove, hancestors, hdepth, pathOf_eq_ok habove hancestors⟩
  isEmpty := isEmpty_iff h
  hasChildren := remove_eq_hasChildren h
  kept := by
    intro id e hremove
    simp [perform, report, hremove, Except.map]
  leaves := remove_of_leaf h

/-- **Every forest that can be built is coherent**, its handles are fewer than its insertions, and a table that is
removed from it is never known again, whatever happens later. -/
theorem coherent_of_history (history : List ForestOperation) :
    (empty.run history).Coherent ∧
    (∀ id n, (empty.run history).node? id = some n → id.index < ForestOperation.totalAdditions history) ∧
    ∀ id t g, (empty.run history).remove id = .ok (t, g) → ∀ later, (g.run later).Unknown id := by
  have hsound := sound_empty.run history
  refine ⟨hsound.linked.coherent, fun id n hnode => index_lt_of_history history hnode, ?_⟩
  exact fun id t g hremove later => unknown_of_removed hremove later

end TableForest.Forest
