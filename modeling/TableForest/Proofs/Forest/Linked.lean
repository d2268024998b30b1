import TableForest.Proofs.Forest.Node

/-!
# Forests are linked

Parents and children agree, the roots are the tables without a parent, and a parent is older than its
children.  Every operation on a forest keeps that.

## The architecture

* **`Forest.parentOf?`**, **`Forest.tableOf?`** and **`Forest.below?`** are what the arena says of a handle.  The
  roots stand below no table, so that roots and children are spoken of together.
* **`Forest.Linked`** is the invariant on them, and **`Linked.parent_induction`** the induction from the roots down
  that it allows.
* What an operation does to the three is said once (`links_of_detach`, `links_of_remove`, …).  A handle is attached,
  moved to the roots or cleared, and each of the three keeps the invariant.
-/

namespace TableForest.Forest

/-! ## Links -/

def parentOf? (f : Forest) (id : TableId) : Option (Option TableId) :=
  (f.node? id).map ForestNode.parent

def childrenOf? (f : Forest) (id : TableId) : Option (List TableId) :=
  (f.node? id).map ForestNode.children

def tableOf? (f : Forest) (id : TableId) : Option Table :=
  (f.node? id).map ForestNode.table

/-- What stands below a table, or at the top. -/
def below? (f : Forest) : Option TableId → Option (List TableId)
  | none => some f.roots
  | some p => f.childrenOf? p

variable {f g : Forest}

theorem parentOf?_of_node? {id : TableId} {n : ForestNode} (h : f.node? id = some n) :
    f.parentOf? id = some n.parent := by
  unfold parentOf?
  rw [h]
  rfl

theorem childrenOf?_of_node? {id : TableId} {n : ForestNode} (h : f.node? id = some n) :
    f.childrenOf? id = some n.children := by
  unfold childrenOf?
  rw [h]
  rfl

theorem tableOf?_of_node? {id : TableId} {n : ForestNode} (h : f.node? id = some n) :
    f.tableOf? id = some n.table := by
  unfold tableOf?
  rw [h]
  rfl

theorem exists_node?_of_parentOf? {id : TableId} {q : Option TableId} (h : f.parentOf? id = some q) :
    ∃ n, f.node? id = some n := by
  obtain ⟨n, hn, -⟩ := Option.map_eq_some_iff.1 h
  exact ⟨n, hn⟩

theorem parentOf?_of_childrenOf? {id : TableId} {cs : List TableId} (h : f.childrenOf? id = some cs) :
    ∃ q, f.parentOf? id = some q := by
  obtain ⟨n, hn, -⟩ := Option.map_eq_some_iff.1 h
  exact ⟨n.parent, parentOf?_of_node? hn⟩

/-- **Parents and children agree.** -/
structure Linked (f : Forest) : Prop where
  /-- What stands below a table has it as its parent, and a root has none. -/
  members : ∀ {q ids}, f.below? q = some ids → ∀ c, c ∈ ids ↔ f.parentOf? c = some q
  /-- Nothing stands in two places. -/
  nodup : ∀ {q ids}, f.below? q = some ids → ids.Nodup
  /-- A parent is in use. -/
  parents : ∀ {id p}, f.parentOf? id = some (some p) → ∃ cs, f.childrenOf? p = some cs
  /-- A parent is older than its children. -/
  older : ∀ {id p}, f.parentOf? id = some (some p) → p.index < id.index

namespace Linked

theorem roots (h : f.Linked) (id : TableId) : id ∈ f.roots ↔ f.parentOf? id = some none :=
  h.members (q := none) rfl id

theorem rootsNodup (h : f.Linked) : f.roots.Nodup :=
  h.nodup (q := none) rfl

theorem children (h : f.Linked) {id : TableId} {cs : List TableId} (hcs : f.childrenOf? id = some cs)
    (c : TableId) : c ∈ cs ↔ f.parentOf? c = some (some id) :=
  h.members (q := some id) hcs c

theorem childrenNodup (h : f.Linked) {id : TableId} {cs : List TableId} (hcs : f.childrenOf? id = some cs) :
    cs.Nodup :=
  h.nodup (q := some id) hcs

/-- What holds of the roots, and of every table of whose parent it holds, holds of all tables.  By induction on their
age: a parent is older. -/
theorem parent_induction (h : f.Linked)
    {motive : ∀ {id : TableId} {n : ForestNode}, f.node? id = some n → Prop}
    (root : ∀ {id n} (hnode : f.node? id = some n), f.parentOf? id = some none → motive hnode)
    (child : ∀ {id n p m} (hnode : f.node? id = some n) (habove : f.node? p = some m),
      f.parentOf? id = some (some p) → motive habove → motive hnode)
    {id : TableId} {n : ForestNode} (hnode : f.node? id = some n) : motive hnode := by
  obtain ⟨age, hage⟩ : ∃ age, id.index = age := ⟨_, rfl⟩
  -- the induction is on the index of the handle, and a parent has a smaller one
  induction age using Nat.strongRecOn generalizing id n with
  | ind age ih =>
    have hparent := parentOf?_of_node? hnode
    cases hp : n.parent with
    | none =>
      rw [hp] at hparent
      exact root hnode hparent
    | some p =>
      rw [hp] at hparent
      have holder := h.older hparent
      obtain ⟨cs, hcs⟩ := h.parents hparent
      obtain ⟨m, hm, -⟩ := Option.map_eq_some_iff.1 hcs
      exact child hnode hm hparent (ih p.index (by omega) hm rfl)

end Linked

theorem linked_empty : Forest.empty.Linked where
  members := by
    intro q ids hids c
    cases q with
    | none =>
      obtain rfl := Option.some.inj hids
      exact ⟨nofun, nofun⟩
    | some p => cases hids
  nodup := by
    intro q ids hids
    cases q with
    | none =>
      obtain rfl := Option.some.inj hids
      exact .nil
    | some p => cases hids
  parents := nofun
  older := nofun

/-- Only the links count. -/
theorem Linked.congr (h : f.Linked) (hparents : ∀ id, g.parentOf? id = f.parentOf? id)
    (hbelow : ∀ q, g.below? q = f.below? q) : g.Linked where
  members := by
    intro q ids hids c
    rw [hbelow] at hids
    rw [hparents]
    exact h.members hids c
  nodup := by
    intro q ids hids
    rw [hbelow] at hids
    exact h.nodup hids
  parents := by
    intro id p hp
    rw [hparents] at hp
    show ∃ cs, g.below? (some p) = some cs
    rw [hbelow]
    exact h.parents hp
  older := by
    intro id p hp
    rw [hparents] at hp
    exact h.older hp

/-! ## Changing tables -/

section Modify

variable {change : ForestNode → ForestNode}

theorem parentOf?_modify (h : ∀ n, (change n).parent = n.parent) {id other : TableId} :
    (f.modify id change).parentOf? other = f.parentOf? other :=
  map_node?_modify_of_eq h id other

theorem tableOf?_modify (h : ∀ n, (change n).table = n.table) {id other : TableId} :
    (f.modify id change).tableOf? other = f.tableOf? other :=
  map_node?_modify_of_eq h id other

theorem below?_modify (h : ∀ n, (change n).children = n.children) {id : TableId} {q : Option TableId} :
    (f.modify id change).below? q = f.below? q := by
  cases q with
  | none => rfl
  | some p => exact map_node?_modify_of_eq h id p

theorem below?_modify_children {step : List TableId → List TableId}
    (h : ∀ n, (change n).children = step n.children) {id : TableId} {q : Option TableId} :
    (f.modify id change).below? q = if q = some id then (f.below? q).map step else f.below? q := by
  cases q with
  | none => rfl
  | some p =>
    simp only [Option.some.injEq]
    exact map_node?_modify h id p

end Modify

/-- A change of a table leaves all links alone. -/
theorem links_of_modify_table (f : Forest) (id : TableId) (change : Table → Table) :
    let g := f.modify id fun n => { n with table := change n.table }
    (∀ other, g.parentOf? other = f.parentOf? other) ∧ (∀ q, g.below? q = f.below? q) ∧
    ∀ other, g.tableOf? other = if other = id then (f.tableOf? other).map change else f.tableOf? other := by
  refine ⟨fun _ => parentOf?_modify fun _ => ?_, fun _ => below?_modify fun _ => ?_, ?_⟩
  · rfl
  · rfl
  have htable : ∀ n : ForestNode, ({ n with table := change n.table } : ForestNode).table = change n.table :=
    fun _ => rfl
  exact map_node?_modify htable id

theorem Linked.modifyTable (h : f.Linked) (id : TableId) (change : Table → Table) :
    (f.modify id fun n => { n with table := change n.table }).Linked := by
  obtain ⟨hparents, hbelow, -⟩ := links_of_modify_table f id change
  exact h.congr hparents hbelow

/-! ## Adding tables -/

/-- One more at the end of a list without repetitions. -/
theorem nodup_append_singleton {ids : List TableId} {id : TableId} (h : ids.Nodup) (hid : id ∉ ids) :
    (ids ++ [id]).Nodup := by
  refine List.nodup_append.2 ⟨h, List.pairwise_singleton _ _, fun a ha b hb hab => ?_⟩
  rw [List.mem_singleton.1 hb] at hab
  exact hid (hab ▸ ha)

/-- **A new handle may be attached as the last one below an older table, or as the last root.** -/
theorem Linked.attach (h : f.Linked) {id : TableId} {q : Option TableId} (hfresh : f.node? id = none)
    (hq : ∀ p, q = some p → p.index < id.index ∧ ∃ cs, f.childrenOf? p = some cs)
    (hparents : ∀ other, g.parentOf? other = if other = id then some q else f.parentOf? other)
    (hbelow : ∀ q', g.below? q' = if q' = some id then some [] else
      if q' = q then (f.below? q').map (· ++ [id]) else f.below? q') : g.Linked := by
  -- nothing knows the new handle yet, neither as a table nor as a parent
  have hunused : f.parentOf? id = none := Option.map_eq_none_iff.2 hfresh
  have hnotparent : ∀ c, f.parentOf? c ≠ some (some id) := by
    intro c hc
    obtain ⟨cs, hcs⟩ := h.parents hc
    unfold childrenOf? at hcs
    rw [hfresh] at hcs
    cases hcs
  constructor
  · -- each table stands where its parent says: below the new handle, in its new place, or elsewhere
    intro q' ids hids c
    rw [hbelow] at hids
    rw [hparents]
    split at hids
    · -- nothing stands below the new handle, and it is no parent
      rename_i hnew
      obtain rfl := Option.some.inj hids
      rw [hnew]
      refine ⟨nofun, fun hc => ?_⟩
      split at hc
      · exact absurd (hq id (Option.some.inj hc)).1 (Nat.lt_irrefl _)
      · exact absurd hc (hnotparent c)
    split at hids
    · -- the new table is the last one in its place, and the others were there before
      rename_i hplace
      obtain ⟨old, hold, rfl⟩ := Option.map_eq_some_iff.1 hids
      rw [List.mem_append, List.mem_singleton, h.members hold c, hplace]
      split
      · rename_i heq
        exact ⟨fun _ => rfl, fun _ => .inr heq⟩
      · rename_i hc
        exact or_iff_left hc
    · -- in any other place nothing has changed, and the new table is not in it
      rename_i hplace
      rw [h.members hids c]
      split
      · rename_i heq
        rw [heq, hunused]
        exact ⟨nofun, fun hc => absurd (Option.some.inj hc).symm hplace⟩
      · rfl
  · -- no place holds a table twice: the new one stood nowhere before
    intro q' ids hids
    rw [hbelow] at hids
    split at hids
    · obtain rfl := Option.some.inj hids
      exact .nil
    split at hids
    · obtain ⟨old, hold, rfl⟩ := Option.map_eq_some_iff.1 hids
      refine nodup_append_singleton (h.nodup hold) fun hmem => ?_
      exact nomatch hunused.symm.trans ((h.members hold id).1 hmem)
    · exact h.nodup hids
  · -- parents are in use: that of the new table by assumption, the others as before
    intro other p hp
    rw [hparents] at hp
    have hlive : ∃ cs, f.below? (some p) = some cs := by
      split at hp
      · exact (hq p (Option.some.inj hp)).2
      · exact h.parents hp
    obtain ⟨cs, hcs⟩ := hlive
    show ∃ cs, g.below? (some p) = some cs
    rw [hbelow, hcs]
    split
    · exact ⟨_, rfl⟩
    split
    · exact ⟨_, rfl⟩
    · exact ⟨_, rfl⟩
  · -- parents are older: that of the new table by assumption, the others as before
    intro other p hp
    rw [hparents] at hp
    split at hp
    · rename_i heq
      rw [heq]
      exact (hq p (Option.some.inj hp)).1
    · exact h.older hp

theorem Linked.insertRoot (h : f.Linked) (t : Table) : (f.insertRoot t).2.Linked := by
  have hnode := f.node?_insertRoot t
  refine h.attach (q := none) node?_nextId nofun (fun other => ?_) fun q' => ?_
  · unfold parentOf?
    rw [hnode]
    -- the new root has no parent
    split
    · rfl
    · rfl
  · cases q' with
    | none => rfl
    | some p =>
      unfold below? childrenOf?
      simp only [hnode, Option.some.injEq, reduceCtorEq, if_false]
      -- nothing stands below the new root
      split
      · rfl
      · rfl

theorem Linked.insertChild (h : f.Linked) {parent id : TableId} {t : Table}
    (hinsert : f.insertChild parent t = .ok (id, g)) : g.Linked := by
  have hadds := addsChild_of_insertChild hinsert
  obtain ⟨n, hn, hgrown⟩ := hadds.parentGrows
  refine h.attach (q := some parent) hadds.fresh (fun p hp => ?_) (fun other => ?_) fun q' => ?_
  · -- the handle of the new table is behind all others
    obtain rfl := Option.some.inj hp
    rw [(nextId_of_insertChild hinsert).1]
    exact ⟨index_lt_of_node? hn, _, childrenOf?_of_node? hn⟩
  · split
    · rename_i heq
      rw [heq]
      exact parentOf?_of_node? hadds.added
    · rename_i hother
      -- the parent has a child more, and no other parent
      by_cases hparent : other = parent
      · rw [hparent, parentOf?_of_node? hgrown, parentOf?_of_node? hn]
      · unfold parentOf?
        rw [hadds.others other hparent hother]
  · cases q' with
    | none => exact congrArg some hadds.roots
    | some p =>
      show g.childrenOf? p = if some p = some id then some [] else
        if some p = some parent then (f.childrenOf? p).map (· ++ [id]) else f.childrenOf? p
      simp only [Option.some.injEq]
      -- below the new table, below its parent, and elsewhere
      split
      · rename_i heq
        rw [heq]
        exact childrenOf?_of_node? hadds.added
      split
      · rename_i hparent
        rw [hparent, childrenOf?_of_node? hgrown, childrenOf?_of_node? hn]
        rfl
      · rename_i hother hparent
        unfold childrenOf?
        rw [hadds.others p hparent hother]

/-! ## Taking tables away from their parents -/

theorem eq_modify_of_unlink {parent id : TableId} (h : f.unlink parent id = .ok g) :
    g = f.modify parent fun n => { n with children := n.children.filter (· ≠ id) } := by
  unfold unlink at h
  obtain ⟨n, -, h⟩ := Except.bind_eq_ok.1 h
  exact (Except.ok.inj h).symm

/-- What detaching can do: nothing to a root, and any other table becomes one. -/
theorem detach_cases {id : TableId} (h : f.detach id = .ok g) :
    f.parentOf? id = some none ∧ g = f ∨ ∃ p u, f.parentOf? id = some (some p) ∧ f.unlink p id = .ok u ∧
      g = { u.modify id fun n => { n with parent := none } with roots := u.roots ++ [id] } := by
  unfold Forest.detach at h
  obtain ⟨n, hnode, h⟩ := Except.bind_eq_ok.1 h
  have hparent := parentOf?_of_node? (node_eq_ok.1 hnode)
  cases hp : n.parent with
  | none =>
    rw [hp] at h hparent
    exact .inl ⟨hparent, (Except.ok.inj h).symm⟩
  | some p =>
    rw [hp] at h hparent
    obtain ⟨u, hunlink, h⟩ := Except.bind_eq_ok.1 h
    exact .inr ⟨p, u, hparent, hunlink, (Except.ok.inj h).symm⟩

/-- A table stands below its parent no more. -/
theorem links_of_unlink {parent id : TableId} (h : f.unlink parent id = .ok g) :
    (∀ q, g.below? q = if q = some parent then (f.below? q).map (·.filter (· ≠ id)) else f.below? q) ∧
    (∀ other, g.parentOf? other = f.parentOf? other) ∧ ∀ other, g.tableOf? other = f.tableOf? other := by
  obtain rfl := eq_modify_of_unlink h
  refine ⟨fun _ => below?_modify_children fun _ => ?_, fun _ => parentOf?_modify fun _ => ?_,
    fun _ => tableOf?_modify fun _ => ?_⟩
  · rfl
  · rfl
  · rfl

/-- A root stays where it is, any other table goes from its parent to the end of the roots. -/
theorem links_of_detach {id : TableId} (h : f.detach id = .ok g) :
    f.parentOf? id = some none ∧ g = f ∨ ∃ p, f.parentOf? id = some (some p) ∧
      (∀ other, g.parentOf? other = if other = id then some none else f.parentOf? other) ∧
      (∀ q, g.below? q = if q = none then some (f.roots ++ [id]) else
        if q = some p then (f.below? q).map (·.filter (· ≠ id)) else f.below? q) ∧
      ∀ other, g.tableOf? other = f.tableOf? other := by
  obtain hroot | ⟨p, u, hparent, hunlink, rfl⟩ := detach_cases h
  · exact .inl hroot
  obtain ⟨hbelow, hparents, htables⟩ := links_of_unlink hunlink
  have hroots : u.roots = f.roots := Option.some.inj (hbelow none)
  refine .inr ⟨p, hparent, fun other => ?_, fun q => ?_, fun other => ?_⟩
  · -- only the table that is detached loses its parent
    show ((u.modify id fun n => { n with parent := none }).node? other).map ForestNode.parent = _
    rw [node?_modify, ← hparents]
    split
    · rename_i heq
      rw [← hparents] at hparent
      obtain ⟨m, hm⟩ := exists_node?_of_parentOf? hparent
      rw [heq, hm]
      rfl
    · rfl
  · -- at the top there is one more, and below the old parent one less
    cases q with
    | none =>
      rw [if_pos rfl, ← hroots]
      rfl
    | some r =>
      rw [if_neg nofun, ← hbelow]
      show (u.modify id fun n => { n with parent := none }).below? (some r) = _
      refine below?_modify fun _ => ?_
      rfl
  · rw [← htables]
    show (u.modify id fun n => { n with parent := none }).tableOf? other = _
    refine tableOf?_modify fun _ => ?_
    rfl

theorem Linked.detach (h : f.Linked) {id : TableId} (hdetach : f.detach id = .ok g) : g.Linked := by
  -- a root stays one
  obtain ⟨-, rfl⟩ | ⟨p, hparent, hparents, hbelow, -⟩ := links_of_detach hdetach
  · exact h
  constructor
  · -- each table stands where its parent says: at the top, below the old parent, or elsewhere
    intro q ids hids c
    rw [hbelow] at hids
    rw [hparents]
    split at hids
    · rename_i htop
      obtain rfl := Option.some.inj hids
      rw [htop, List.mem_append, List.mem_singleton, h.roots c]
      split
      · rename_i heq
        exact ⟨fun _ => rfl, fun _ => .inr heq⟩
      · rename_i hc
        exact or_iff_left hc
    split at hids
    · rename_i htop hold
      obtain ⟨old, hcs, rfl⟩ := Option.map_eq_some_iff.1 hids
      rw [List.mem_filter, decide_eq_true_eq, h.members hcs c]
      split
      · rename_i heq
        exact ⟨fun hmem => absurd heq hmem.2, fun hc => absurd (Option.some.inj hc).symm htop⟩
      · rename_i hc
        exact and_iff_left hc
    · rename_i htop hold
      rw [h.members hids c]
      split
      · -- the table itself stands neither at the top nor below its old parent here
        rename_i heq
        rw [heq, hparent]
        exact ⟨fun hc => absurd (Option.some.inj hc).symm hold, fun hc => absurd (Option.some.inj hc).symm htop⟩
      · rfl
  · -- the table was no root before, so it stands at the top once
    intro q ids hids
    rw [hbelow] at hids
    split at hids
    · obtain rfl := Option.some.inj hids
      refine nodup_append_singleton h.rootsNodup fun hmem => ?_
      exact nomatch hparent.symm.trans ((h.roots id).1 hmem)
    split at hids
    · obtain ⟨old, hcs, rfl⟩ := Option.map_eq_some_iff.1 hids
      exact (h.nodup hcs).filter _
    · exact h.nodup hids
  · -- a parent that is left is in use, with or without that child
    intro other r hr
    rw [hparents] at hr
    split at hr
    · cases hr
    · obtain ⟨cs, hcs⟩ := h.parents hr
      show ∃ cs, g.below? (some r) = some cs
      rw [hbelow, if_neg nofun, show f.below? (some r) = some cs from hcs]
      split
      · exact ⟨_, rfl⟩
      · exact ⟨_, rfl⟩
  · intro other r hr
    rw [hparents] at hr
    split at hr
    · cases hr
    · exact h.older hr

/-! ## Removing tables -/

theorem node?_set_none (id other : TableId) :
    Forest.node? { f with nodes := f.nodes.set id.index none } other =
      if other = id then none else f.node? other := by
  unfold node?
  rw [List.getElem?_set]
  by_cases heq : other = id
  · rw [heq, if_pos rfl, if_pos rfl]
    split
    · rfl
    · rfl
  · have hindex : id.index ≠ other.index := fun hi => heq (TableId.eq_of_index_eq hi).symm
    rw [if_neg heq, if_neg hindex]

/-- What is said of a handle once it is no longer in use. -/
theorem links_of_clear (u : Forest) (id : TableId) :
    let g : Forest := { u with nodes := u.nodes.set id.index none }
    (∀ other, g.parentOf? other = if other = id then none else u.parentOf? other) ∧
    (∀ q, g.below? q = if q = some id then none else u.below? q) ∧
    ∀ other, g.tableOf? other = if other = id then none else u.tableOf? other := by
  refine ⟨fun other => ?_, fun q => ?_, fun other => ?_⟩
  -- all three are read off the place of the handle, which is empty now
  · unfold parentOf?
    rw [node?_set_none]
    split
    · rfl
    · rfl
  · cases q with
    | none => rfl
    | some p =>
      unfold below? childrenOf?
      simp only [Option.some.injEq]
      rw [node?_set_none]
      split
      · rfl
      · rfl
  · unfold tableOf?
    rw [node?_set_none]
    split
    · rfl
    · rfl

/-- What removing can do: a table without children is taken away from its parent or from the roots, and then its
place is emptied. -/
theorem remove_cases {id : TableId} {t : Table} (h : f.remove id = .ok (t, g)) :
    ∃ n u, f.node? id = some n ∧ n.children = [] ∧ g = { u with nodes := u.nodes.set id.index none } ∧
      (n.parent = none ∧ u = { f with roots := f.roots.filter (· ≠ id) } ∨
        ∃ p, n.parent = some p ∧ f.unlink p id = .ok u) := by
  unfold Forest.remove at h
  obtain ⟨n, hnode, h⟩ := Except.bind_eq_ok.1 h
  dsimp only at h
  split at h
  · cases h
  rename_i hempty
  have hnil : n.children = [] := by simpa using hempty
  cases hp : n.parent with
  | none =>
    rw [hp] at h
    obtain ⟨-, rfl⟩ := Prod.mk.inj (Except.ok.inj h)
    exact ⟨n, _, node_eq_ok.1 hnode, hnil, rfl, .inl ⟨hp, rfl⟩⟩
  | some p =>
    rw [hp] at h
    obtain ⟨u, hunlink, h⟩ := Except.bind_eq_ok.1 h
    obtain ⟨-, rfl⟩ := Prod.mk.inj (Except.ok.inj h)
    exact ⟨n, u, node_eq_ok.1 hnode, hnil, rfl, .inr ⟨p, hp, hunlink⟩⟩

/-- Only a table without children can be removed: it goes from below its parent, or from the roots, and its
handle is no longer in use. -/
theorem links_of_remove {id : TableId} {t : Table} (h : f.remove id = .ok (t, g)) :
    ∃ q, f.parentOf? id = some q ∧ f.childrenOf? id = some [] ∧
      (∀ other, g.parentOf? other = if other = id then none else f.parentOf? other) ∧
      (∀ q', g.below? q' = if q' = some id then none else
        if q' = q then (f.below? q').map (·.filter (· ≠ id)) else f.below? q') ∧
      ∀ other, g.tableOf? other = if other = id then none else f.tableOf? other := by
  obtain ⟨n, u, hn, hnil, rfl, hfrom⟩ := remove_cases h
  -- the place is cleared after the table has been taken from its parent or from the roots
  have hparent := parentOf?_of_node? hn
  have hleaf : f.childrenOf? id = some [] := hnil ▸ childrenOf?_of_node? hn
  obtain ⟨hparents', hbelow', htables'⟩ := links_of_clear u id
  refine ⟨n.parent, hparent, hleaf, ?_⟩
  obtain ⟨hp, rfl⟩ | ⟨p, hp, hunlink⟩ := hfrom
  · refine ⟨hparents', fun q' => ?_, htables'⟩
    rw [hp, hbelow']
    cases q' with
    | none => rfl
    | some p => rfl
  · obtain ⟨hbelow, hparents, htables⟩ := links_of_unlink hunlink
    refine ⟨fun other => ?_, fun q' => ?_, fun other => ?_⟩
    · rw [hparents', hparents]
    · rw [hp, hbelow', hbelow]
    · rw [htables', htables]

theorem Linked.remove (h : f.Linked) {id : TableId} {t : Table} (hremove : f.remove id = .ok (t, g)) :
    g.Linked := by
  obtain ⟨q, hparent, hleaf, hparents, hbelow, -⟩ := links_of_remove hremove
  constructor
  · intro q' ids hids c
    rw [hbelow] at hids
    rw [hparents]
    split at hids
    · cases hids
    split at hids
    · obtain ⟨old, hold, rfl⟩ := Option.map_eq_some_iff.1 hids
      rw [List.mem_filter, decide_eq_true_eq, h.members hold c]
      split
      · rename_i heq
        exact ⟨fun hmem => absurd heq hmem.2, nofun⟩
      · rename_i hc
        exact and_iff_left hc
    · rename_i hplace
      rw [h.members hids c]
      split
      · rename_i heq
        rw [heq, hparent]
        exact ⟨fun hc => absurd (Option.some.inj hc).symm hplace, nofun⟩
      · rfl
  · intro q' ids hids
    rw [hbelow] at hids
    split at hids
    · cases hids
    split at hids
    · obtain ⟨old, hold, rfl⟩ := Option.map_eq_some_iff.1 hids
      exact (h.nodup hold).filter _
    · exact h.nodup hids
  · intro other p hp
    rw [hparents] at hp
    split at hp
    · cases hp
    obtain ⟨cs, hcs⟩ := h.parents hp
    -- the removed table has no children, so it is not the parent that is looked for
    have hne : p ≠ id := by
      rintro rfl
      exact nomatch (h.children hleaf other).2 hp
    show ∃ cs, g.below? (some p) = some cs
    rw [hbelow, if_neg fun heq => hne (Option.some.inj heq), show f.below? (some p) = some cs from hcs]
    split
    · exact ⟨_, rfl⟩
    · exact ⟨_, rfl⟩
  · intro other p hp
    rw [hparents] at hp
    split at hp
    · cases hp
    · exact h.older hp

end TableForest.Forest
