import Mathlib.Data.List.Nodup
import Mathlib.Data.List.Perm.Subperm
import Mathlib.Logic.Relation
import TableForest.Proofs.Forest.Depth

/-!
# Walks through a forest

A walk keeps a stack of tables, and `Forest.walkStack` gives it as many steps as the arena is long.  A linked
forest needs no more: the walk ends by itself, after it has met every table below those on the stack once.

## The architecture

* **`Forest.IsBelow`** is the order of a forest.  Two tables with one parent have nothing in common below them
  (**`eq_of_isBelow`**), and every table is below a root (**`exists_root`**).
* **`Forest.Visits`** is the walk without a bound on its steps: it has a derivation exactly if the walk ends.
* **`walk_eq_ok`** and **`walkAll_visits`** bring the bounded walk and the free one together; **`length_walkAll`**
  counts the tables.
* **`Forest.Above`** is the way up without a bound, and **`ancestors_eq_ok`** says the same of it.
-/

namespace TableForest.Forest

variable {f g : Forest}

/-! ## Below a table -/

/-- A table is another one or stands below it. -/
def IsBelow (f : Forest) (top id : TableId) : Prop :=
  Relation.ReflTransGen (fun p c => f.parentOf? c = some (some p)) top id

theorem IsBelow.refl (f : Forest) (id : TableId) : f.IsBelow id id :=
  Relation.ReflTransGen.refl

theorem IsBelow.index_le (h : f.Linked) {top id : TableId} (hbelow : f.IsBelow top id) :
    top.index ≤ id.index := by
  induction hbelow with
  | refl => exact Nat.le_refl _
  | tail _ hparent ih =>
    have holder := h.older hparent
    omega

/-- Below a table stand the table itself and what is below its children. -/
theorem isBelow_iff (h : f.Linked) {id : TableId} {n : ForestNode} (hnode : f.node? id = some n)
    (other : TableId) : f.IsBelow id other ↔ other = id ∨ ∃ c ∈ n.children, f.IsBelow c other := by
  have hchildren := h.children (childrenOf?_of_node? hnode)
  constructor
  · intro hbelow
    rcases Relation.ReflTransGen.cases_head hbelow with heq | ⟨c, hparent, hrest⟩
    · exact .inl heq.symm
    · exact .inr ⟨c, (hchildren c).2 hparent, hrest⟩
  · rintro (rfl | ⟨c, hc, hbelow⟩)
    · exact .refl f other
    · exact Relation.ReflTransGen.head ((hchildren c).1 hc) hbelow

/-- **What stands below two children of one table, or below two roots, shows that they are one.** -/
theorem eq_of_isBelow (h : f.Linked) {a b id : TableId} {q : Option TableId} (ha : f.parentOf? a = some q)
    (hb : f.parentOf? b = some q) (hida : f.IsBelow a id) (hidb : f.IsBelow b id) : a = b := by
  -- A table is not below its sibling: the parent of both is older than either.
  have hapart : ∀ {c d p : TableId}, f.parentOf? c = some q → f.parentOf? d = some q →
      f.parentOf? d = some (some p) → ¬f.IsBelow c p := by
    intro c d p hc hd hp hbelow
    have hq : q = some p := Option.some.inj (hd.symm.trans hp)
    have holder := h.older (hc.trans (congrArg some hq))
    have hle := hbelow.index_le h
    omega
  induction hida with
  | refl =>
    rcases Relation.ReflTransGen.cases_tail hidb with heq | ⟨p, hbelow, hparent⟩
    · exact heq
    · exact absurd hbelow (hapart hb ha hparent)
  | @tail p c habove hparent ih =>
    rcases Relation.ReflTransGen.cases_tail hidb with heq | ⟨p', hbelow, hparent'⟩
    · subst heq
      exact absurd habove (hapart ha hb hparent)
    · obtain rfl : p' = p := Option.some.inj (Option.some.inj (hparent'.symm.trans hparent))
      exact ih hbelow

/-- **Every table is below a root.** -/
theorem exists_root (h : f.Linked) {id : TableId} {n : ForestNode} (hnode : f.node? id = some n) :
    ∃ r ∈ f.roots, f.IsBelow r id := by
  induction hnode using h.parent_induction with
  | @root id n hnode hparent => exact ⟨id, (h.roots id).2 hparent, .refl f id⟩
  | child hnode habove hparent ih =>
    obtain ⟨r, hr, hbelow⟩ := ih
    exact ⟨r, hr, Relation.ReflTransGen.tail hbelow hparent⟩

/-! ## Walking down -/

/-- The tables that a walk visits with some tables on its stack: the first of these, then its children and what
is below them, then the others. -/
inductive Visits (f : Forest) : List TableId → List TableId → Prop
  | nil : Visits f [] []
  | cons {id : TableId} {n : ForestNode} {stack visited : List TableId} (node : f.node? id = some n)
      (rest : Visits f (n.children ++ stack) visited) : Visits f (id :: stack) (id :: visited)

namespace Visits

theorem unique {stack v w : List TableId} (hv : f.Visits stack v) (hw : f.Visits stack w) : v = w := by
  induction hv generalizing w with
  | nil => cases hw; rfl
  | cons hnode _ ih =>
    cases hw with
    | cons hnode' hrest' =>
      obtain rfl := Option.some.inj (hnode.symm.trans hnode')
      rw [ih hrest']

/-- What is on the stack later is visited later. -/
theorem append {stack stack' v v' : List TableId} (h : f.Visits stack v) (h' : f.Visits stack' v') :
    f.Visits (stack ++ stack') (v ++ v') := by
  induction h with
  | nil => exact h'
  | cons hnode _ ih =>
    rw [List.append_assoc] at ih
    exact .cons hnode ih

theorem node?_of_mem {stack v : List TableId} (h : f.Visits stack v) :
    ∀ id ∈ v, ∃ n, f.node? id = some n := by
  induction h with
  | nil => simp
  | cons hnode _ ih => exact List.forall_mem_cons.2 ⟨⟨_, hnode⟩, ih⟩

/-- Only the tables that are visited count. -/
theorem extend {stack v : List TableId} (h : f.Visits stack v)
    (hkeep : ∀ id ∈ v, ∀ n, f.node? id = some n → g.node? id = some n) : g.Visits stack v := by
  induction h with
  | nil => exact .nil
  | cons hnode _ ih =>
    rw [List.forall_mem_cons] at hkeep
    exact .cons (hkeep.1 _ hnode) (ih hkeep.2)

/-- The walk with a bound on its steps gives what the free walk visits, if it has a step for each table. -/
theorem walkStack_eq_ok {stack v : List TableId} (h : f.Visits stack v) {steps : Nat}
    (hsteps : v.length ≤ steps) : f.walkStack steps stack = .ok v := by
  induction h generalizing steps with
  | nil => simp [walkStack]
  | cons hnode _ ih =>
    obtain ⟨left, rfl⟩ : ∃ left, steps = left + 1 := ⟨steps - 1, by simp at hsteps; omega⟩
    have hrest : f.walkStack left _ = _ := ih (by simpa using hsteps)
    rw [walkStack, node_eq_ok.2 hnode]
    simp only [bind, Except.bind, hrest]
    rfl

/-- **A walk meets what is below the tables on its stack, and nothing else.** -/
theorem mem_iff (h : f.Linked) {stack v : List TableId} (hv : f.Visits stack v) (other : TableId) :
    other ∈ v ↔ ∃ id ∈ stack, f.IsBelow id other := by
  induction hv with
  | nil => simp
  | @cons id n stack visited hnode _ ih =>
    have hhead := isBelow_iff h hnode other
    simp only [List.mem_cons, ih, List.mem_append, exists_eq_or_imp, hhead]
    grind

/-- **A walk meets no table twice**, if nothing is below two of the tables on its stack. -/
theorem nodup (h : f.Linked) {stack v : List TableId} (hv : f.Visits stack v)
    (hapart : stack.Pairwise fun a b => ∀ id, f.IsBelow a id → ¬f.IsBelow b id) : v.Nodup := by
  induction hv with
  | nil => exact .nil
  | @cons id n stack visited hnode hrest ih =>
    obtain ⟨hfirst, hothers⟩ := List.pairwise_cons.1 hapart
    have hcs := childrenOf?_of_node? hnode
    -- the children stand apart from each other and from what else is on the stack
    have hparent : ∀ c ∈ n.children, f.parentOf? c = some (some id) := fun c hc => (h.children hcs c).1 hc
    have hbelow : ∀ c ∈ n.children, ∀ x, f.IsBelow c x → f.IsBelow id x := fun c hc x hx =>
      (isBelow_iff h hnode x).2 (.inr ⟨c, hc, hx⟩)
    refine List.nodup_cons.2 ⟨?_, ih (List.pairwise_append.2 ⟨?_, hothers, ?_⟩)⟩
    · -- The table is older than its children, and what else is on the stack has nothing to do with it.
      rw [hrest.mem_iff h]
      rintro ⟨a, ha, hbelow⟩
      rcases List.mem_append.1 ha with ha | ha
      · have holder := h.older (hparent a ha)
        have hle := hbelow.index_le h
        omega
      · exact hfirst a ha id (.refl f id) hbelow
    · refine (h.childrenNodup hcs).pairwise_of_forall_ne fun a ha b hb hne x hx hx' => hne ?_
      exact eq_of_isBelow h (hparent a ha) (hparent b hb) hx hx'
    · exact fun c hc b hb x hx => hfirst b hb x (hbelow c hc x hx)

end Visits

/-- Tables with one parent have nothing in common below them. -/
theorem pairwise_apart (h : f.Linked) {q : Option TableId} {ids : List TableId} (hids : f.below? q = some ids) :
    ids.Pairwise fun a b => ∀ id, f.IsBelow a id → ¬f.IsBelow b id := by
  refine (h.nodup hids).pairwise_of_forall_ne fun a ha b hb hne x hx hx' => hne ?_
  exact eq_of_isBelow h ((h.members hids a).1 ha) ((h.members hids b).1 hb) hx hx'

theorem exists_visits_of_forall {stack : List TableId} (h : ∀ id ∈ stack, ∃ v, f.Visits [id] v) :
    ∃ v, f.Visits stack v := by
  induction stack with
  | nil => exact ⟨[], .nil⟩
  | cons id rest ih =>
    rw [List.forall_mem_cons] at h
    obtain ⟨v, hv⟩ := h.1
    obtain ⟨w, hw⟩ := ih h.2
    exact ⟨v ++ w, hv.append hw⟩

/-- **A walk ends.**  By induction on how many tables are newer: those below are. -/
theorem exists_visits (h : f.Linked) {id : TableId} {n : ForestNode} (hnode : f.node? id = some n) :
    ∃ v, f.Visits [id] v := by
  -- the induction is on how many handles are newer: a child is newer than its parent
  obtain ⟨newer, hnewer⟩ : ∃ newer, f.nodes.length - id.index = newer := ⟨_, rfl⟩
  induction newer using Nat.strongRecOn generalizing id n with
  | ind newer ih =>
    have hbelow : ∃ v, f.Visits n.children v := by
      refine exists_visits_of_forall fun c hc => ?_
      have hparent := (h.children (childrenOf?_of_node? hnode) c).1 hc
      obtain ⟨m, hm⟩ := exists_node?_of_parentOf? hparent
      have holder := h.older hparent
      have hlt := index_lt_of_node? hm
      exact ih _ (by omega) hm rfl
    obtain ⟨v, hv⟩ := hbelow
    refine ⟨id :: v, .cons hnode ?_⟩
    rw [List.append_nil]
    exact hv

/-- Different tables in use are no more than the arena is long. -/
theorem length_le_of_nodup {ids : List TableId} (hnodup : ids.Nodup)
    (hlive : ∀ id ∈ ids, ∃ n, f.node? id = some n) : ids.length ≤ f.nodes.length := by
  have hindices : (ids.map TableId.index).Nodup := hnodup.map fun _ _ => TableId.eq_of_index_eq
  have hsub : ids.map TableId.index ⊆ List.range f.nodes.length := by
    intro i hi
    obtain ⟨id, hid, rfl⟩ := List.mem_map.1 hi
    obtain ⟨n, hn⟩ := hlive id hid
    exact List.mem_range.2 (index_lt_of_node? hn)
  simpa using (hindices.subperm hsub).length_le

/-- **The walk below a table is not cut short**: it meets the table and all below it, each once. -/
theorem walk_eq_ok (h : f.Linked) {id : TableId} {n : ForestNode} (hnode : f.node? id = some n) :
    ∃ v, f.walk id = .ok v ∧ f.Visits [id] v ∧ v.Nodup ∧ ∀ other, other ∈ v ↔ f.IsBelow id other := by
  obtain ⟨v, hv⟩ := exists_visits h hnode
  have hnodup : v.Nodup := hv.nodup h (List.pairwise_singleton _ _)
  refine ⟨v, ?_, hv, hnodup, fun other => ?_⟩
  · unfold walk
    rw [node_eq_ok.2 hnode]
    exact hv.walkStack_eq_ok (length_le_of_nodup hnodup hv.node?_of_mem)
  · simpa using hv.mem_iff h other

theorem flatMap_walk (h : f.Linked) {ids : List TableId} (hlive : ∀ id ∈ ids, ∃ n, f.node? id = some n) :
    f.Visits ids (ids.flatMap fun id => match f.walk id with
      | .ok v => v
      | .error _ => []) := by
  induction ids with
  | nil => exact .nil
  | cons id rest ih =>
    rw [List.forall_mem_cons] at hlive
    obtain ⟨n, hn⟩ := hlive.1
    obtain ⟨v, hwalk, hv, -⟩ := walk_eq_ok h hn
    rw [List.flatMap_cons, hwalk]
    exact hv.append (ih hlive.2)

/-- The walk through the whole forest is a walk with the roots on its stack. -/
theorem walkAll_visits (h : f.Linked) : f.Visits f.roots f.walkAll :=
  flatMap_walk h fun r hr => exists_node?_of_parentOf? ((h.roots r).1 hr)

theorem nodup_walkAll (h : f.Linked) : f.walkAll.Nodup :=
  (walkAll_visits h).nodup h (pairwise_apart h (q := none) rfl)

/-- **The walk through the whole forest meets every table.** -/
theorem mem_walkAll (h : f.Linked) (id : TableId) : id ∈ f.walkAll ↔ ∃ n, f.node? id = some n := by
  constructor
  · exact (walkAll_visits h).node?_of_mem id
  · rintro ⟨n, hn⟩
    exact ((walkAll_visits h).mem_iff h id).2 (exists_root h hn)

theorem nodes_eq (f : Forest) : f.nodes = (List.range f.nodes.length).map fun i => f.node? ⟨i⟩ := by
  refine List.ext_getElem (by simp) fun i hi _ => ?_
  simp [node?, List.getElem?_eq_getElem hi]

/-- **A walk through the whole forest meets as many tables as there are.** -/
theorem length_walkAll (h : f.Linked) : f.walkAll.length = f.size := by
  have hindices : (f.walkAll.map TableId.index).Nodup :=
    (nodup_walkAll h).map fun _ _ => TableId.eq_of_index_eq
  have htaken : ((List.range f.nodes.length).filter fun i => (f.node? ⟨i⟩).isSome).Nodup :=
    List.nodup_range.filter _
  -- The places that the walk meets are those that are taken.
  have hsame : ∀ i, i ∈ f.walkAll.map TableId.index ↔
      i ∈ (List.range f.nodes.length).filter fun i => (f.node? ⟨i⟩).isSome := by
    intro i
    rw [List.mem_map, List.mem_filter, List.mem_range, Option.isSome_iff_exists]
    constructor
    · rintro ⟨id, hid, rfl⟩
      obtain ⟨n, hn⟩ := (mem_walkAll h id).1 hid
      exact ⟨index_lt_of_node? hn, n, hn⟩
    · rintro ⟨-, n, hn⟩
      exact ⟨⟨i⟩, (mem_walkAll h ⟨i⟩).2 ⟨n, hn⟩, rfl⟩
  have hlength := ((List.perm_ext_iff_of_nodup hindices htaken).2 hsame).length_eq
  rw [List.length_map] at hlength
  rw [hlength, ← List.countP_eq_length_filter, size]
  conv_rhs => rw [nodes_eq f, List.countP_map]
  rfl

/-! ## Walking up -/

/-- The tables above a table, the parent first and a root last. -/
inductive Above (f : Forest) : TableId → List TableId → Prop
  | root {id : TableId} (parent : f.parentOf? id = some none) : Above f id []
  | child {id p : TableId} {ids : List TableId} (parent : f.parentOf? id = some (some p))
      (rest : Above f p ids) : Above f id (p :: ids)

theorem Above.node?_of_mem {id : TableId} {ids : List TableId} (h : f.Above id ids) :
    ∀ i ∈ id :: ids, ∃ n, f.node? i = some n := by
  induction h with
  | root hparent => simpa using exists_node?_of_parentOf? hparent
  | child hparent _ ih => exact List.forall_mem_cons.2 ⟨exists_node?_of_parentOf? hparent, ih⟩

/-- Climbing is not cut short if there is a step for each older table. -/
theorem Above.climb_eq_ok (h : f.Linked) {id : TableId} {ids : List TableId} (habove : f.Above id ids)
    {steps : Nat} (hsteps : id.index < steps) : f.climb steps id = .ok ids := by
  induction habove generalizing steps with
  | root hparent =>
    obtain ⟨left, rfl⟩ : ∃ left, steps = left + 1 := ⟨steps - 1, by omega⟩
    exact climb_of_root hparent left
  | child hparent _ ih =>
    obtain ⟨left, rfl⟩ : ∃ left, steps = left + 1 := ⟨steps - 1, by omega⟩
    have holder := h.older hparent
    rw [climb_of_child hparent, ih (by omega)]
    rfl

/-- **The way up ends at a root.** -/
theorem exists_above (h : f.Linked) {id : TableId} {n : ForestNode} (hnode : f.node? id = some n) :
    ∃ ids, f.Above id ids := by
  induction hnode using h.parent_induction with
  | root hnode hparent => exact ⟨[], .root hparent⟩
  | @child id n p m hnode habove hparent ih =>
    obtain ⟨ids, hids⟩ := ih
    exact ⟨p :: ids, .child hparent hids⟩

/-- **The tables above a table are all found**, and there are as many as the table is deep. -/
theorem ancestors_eq_ok (h : f.Linked) {id : TableId} {n : ForestNode} (hnode : f.node? id = some n) :
    ∃ ids, f.Above id ids ∧ f.ancestors id = .ok ids ∧ f.depth id = .ok ids.length := by
  obtain ⟨ids, hids⟩ := exists_above h hnode
  have hancestors : f.ancestors id = .ok ids := by
    unfold ancestors
    rw [node_eq_ok.2 hnode]
    exact hids.climb_eq_ok h (index_lt_of_node? hnode)
  refine ⟨ids, hids, hancestors, ?_⟩
  unfold depth
  rw [hancestors]
  rfl

end TableForest.Forest
