import TableForest.Forest.Basic
import TableForest.Proofs.Except

/-!
# Nodes of a forest

What stands under each handle after a table is added, changed or taken away.  `Forest.AddsChild` says all
that adding a child does to a forest.
-/

namespace TableForest

/-! ## Handles -/

theorem TableId.eq_of_index_eq {id other : TableId} (h : id.index = other.index) : id = other := by
  cases id
  cases other
  cases h
  rfl

namespace Forest

variable {f : Forest}

theorem node?_eq_some {id : TableId} {n : ForestNode} :
    f.node? id = some n ↔ f.nodes[id.index]? = some (some n) := by
  unfold node?
  cases f.nodes[id.index]? with
  | none => simp
  | some found => simp

theorem index_lt_of_node? {id : TableId} {n : ForestNode} (h : f.node? id = some n) :
    id.index < f.nodes.length := by
  obtain ⟨hlt, -⟩ := List.getElem?_eq_some_iff.1 (node?_eq_some.1 h)
  exact hlt

theorem node_eq_ok {id : TableId} {n : ForestNode} : f.node id = .ok n ↔ f.node? id = some n := by
  unfold node
  cases f.node? id <;> simp

theorem table_eq_ok {id : TableId} {t : Table} :
    f.table id = .ok t ↔ ∃ n, f.node? id = some n ∧ n.table = t := by
  unfold table node
  cases f.node? id <;> simp [Except.map]

theorem node?_nextId : f.node? f.nextId = none := by
  unfold node? nextId
  rw [List.getElem?_eq_none (Nat.le_refl _)]
  rfl

theorem ne_nextId_of_node? {id : TableId} {n : ForestNode} (h : f.node? id = some n) :
    id ≠ f.nextId := by
  intro heq
  rw [heq, node?_nextId] at h
  cases h

/-! ## Changing nodes -/

theorem node?_modify (id other : TableId) (g : ForestNode → ForestNode) :
    (f.modify id g).node? other = if other = id then (f.node? other).map g else f.node? other := by
  unfold node? modify
  rw [List.getElem?_modify]
  by_cases h : other = id
  · subst h
    simp only [if_true]
    cases f.nodes[other.index]? with
    | none => rfl
    | some found => cases found <;> rfl
  · have hindex : id.index ≠ other.index := fun heq => h (TableId.eq_of_index_eq heq).symm
    simp only [if_neg h, if_neg hindex, id_map']

/-- What a change does to a part of a node is done to that part of the node of the handle. -/
theorem map_node?_modify {α : Type} {part : ForestNode → α} {change : ForestNode → ForestNode} {step : α → α}
    (h : ∀ n, part (change n) = step (part n)) (id other : TableId) :
    ((f.modify id change).node? other).map part =
      if other = id then ((f.node? other).map part).map step else (f.node? other).map part := by
  rw [node?_modify]
  split
  · rw [Option.map_map, Option.map_map]
    exact congrArg (Option.map · _) (funext h)
  · rfl

/-- A part of the nodes that a change leaves alone. -/
theorem map_node?_modify_of_eq {α : Type} {part : ForestNode → α} {change : ForestNode → ForestNode}
    (h : ∀ n, part (change n) = part n) (id other : TableId) :
    ((f.modify id change).node? other).map part = (f.node? other).map part := by
  rw [node?_modify]
  split
  · rw [Option.map_map]
    exact congrArg (Option.map · _) (funext h)
  · rfl

theorem node?_allocate (t : Table) (parent : Option TableId) (id : TableId) :
    (f.allocate t parent).node? id =
      if id = f.nextId then some ⟨t, parent, []⟩ else f.node? id := by
  unfold node? allocate
  by_cases h : id = f.nextId
  · subst h
    rw [if_pos rfl]
    simp [nextId]
  · -- the new node stands behind the old ones
    have hindex : id.index ≠ f.nodes.length := by
      intro heq
      exact h (by cases id; cases heq; rfl)
    rw [if_neg h]
    by_cases hlt : id.index < f.nodes.length
    · simp only [List.getElem?_append_left hlt]
    · have hout : f.nodes.length + 1 ≤ id.index := by omega
      simp only
      rw [List.getElem?_eq_none (by simpa using hout), List.getElem?_eq_none (by omega)]

theorem node?_insertRoot (t : Table) (id : TableId) :
    (f.insertRoot t).2.node? id = if id = f.nextId then some ⟨t, none, []⟩ else f.node? id :=
  node?_allocate t none id

theorem node?_insertRoot_new (t : Table) : (f.insertRoot t).2.node? f.nextId = some ⟨t, none, []⟩ := by
  rw [node?_insertRoot, if_pos rfl]

theorem node?_insertRoot_of_node? {id : TableId} {n : ForestNode} (h : f.node? id = some n) (t : Table) :
    (f.insertRoot t).2.node? id = some n := by
  rw [node?_insertRoot, if_neg (ne_nextId_of_node? h), h]

theorem size_allocate (t : Table) (parent : Option TableId) :
    (f.allocate t parent).size = f.size + 1 := by
  simp [size, allocate, List.countP_append]

theorem size_modify (id : TableId) (g : ForestNode → ForestNode) :
    (f.modify id g).size = f.size := by
  -- A place stays taken or free, whatever is done to what stands there.
  have hmodify : ∀ (nodes : List (Option ForestNode)) (i : Nat),
      (nodes.modify i (·.map g)).countP Option.isSome = nodes.countP Option.isSome := by
    intro nodes
    induction nodes with
    | nil => intro i; simp
    | cons n rest ih =>
      intro i
      cases i with
      | zero => cases n <;> simp
      | succ i => simp [List.countP_cons, ih i]
  exact hmodify f.nodes id.index

/-! ## Adding a child -/

/-- One table is added as the last child of a parent, and nothing else changes. -/
structure AddsChild (f f' : Forest) (parent id : TableId) (t : Table) : Prop where
  fresh : f.node? id = none
  added : f'.node? id = some ⟨t, some parent, []⟩
  /-- The parent keeps its table, its own parent and its children, and the new one is the last of them. -/
  parentGrows : ∃ n, f.node? parent = some n ∧
    f'.node? parent = some { n with children := n.children ++ [id] }
  others : ∀ other, other ≠ parent → other ≠ id → f'.node? other = f.node? other
  roots : f'.roots = f.roots
  size : f'.size = f.size + 1

/-- The new table stands where none stood. -/
theorem AddsChild.ne_of_node? {f' : Forest} {parent id other : TableId} {t : Table} {n : ForestNode}
    (h : f.AddsChild f' parent id t) (hother : f.node? other = some n) : other ≠ id := by
  rintro rfl
  rw [h.fresh] at hother
  cases hother

/-- Adding a child does only that, and it succeeds exactly if the parent is there. -/
theorem addsChild_of_insertChild {f' : Forest} {parent id : TableId} {t : Table}
    (h : f.insertChild parent t = .ok (id, f')) : f.AddsChild f' parent id t := by
  unfold insertChild at h
  obtain ⟨n, hnode, h⟩ := Except.bind_eq_ok.1 h
  obtain ⟨rfl, rfl⟩ := Prod.mk.inj (Except.ok.inj h)
  have hparent := node_eq_ok.1 hnode
  have hne := ne_nextId_of_node? hparent
  refine ⟨node?_nextId, ?_, ⟨n, hparent, ?_⟩, fun other hother hid => ?_, rfl, ?_⟩
  · rw [node?_modify, if_neg hne.symm, node?_allocate, if_pos rfl]
  · rw [node?_modify, if_pos rfl, node?_allocate, if_neg hne, hparent]
    rfl
  · rw [node?_modify, if_neg hother, node?_allocate, if_neg hid]
  · rw [size_modify, size_allocate]

theorem nextId_of_insertChild {f' : Forest} {parent id : TableId} {t : Table}
    (h : f.insertChild parent t = .ok (id, f')) : id = f.nextId ∧ f'.nodes.length = f.nodes.length + 1 := by
  unfold insertChild at h
  obtain ⟨n, -, h⟩ := Except.bind_eq_ok.1 h
  obtain ⟨rfl, rfl⟩ := Prod.mk.inj (Except.ok.inj h)
  refine ⟨rfl, ?_⟩
  unfold modify allocate
  rw [List.length_modify, List.length_append]
  rfl

theorem insertChild_of_node? {parent : TableId} {n : ForestNode} (h : f.node? parent = some n)
    (t : Table) : ∃ id f', f.insertChild parent t = .ok (id, f') := by
  unfold insertChild
  rw [node_eq_ok.2 h]
  exact ⟨_, _, rfl⟩

end Forest
end TableForest
