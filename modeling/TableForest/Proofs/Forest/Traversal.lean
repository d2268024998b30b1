import TableForest.Proofs.Forest.History
import TableForest.Proofs.Forest.Walk

/-!
# The order of a walk

A walk takes the next table from the end of a stack and puts its children there, the last child first.  So it meets a
table before what is below it, and what is below one child before the next child.  It takes one round for each table
that it meets.  The walk through the whole forest puts the walks below the roots one after the other, and a working
directory that is set for a table and all below it is set along a walk.

## The architecture

* **`walkRound`** is one round of the loop on a **`WalkState`**, and **`Visits.walkRounds`** says what all rounds come
  to: the stack of the loop is that of **`Visits`** the other way round.
* **`mapM_walk`** puts walks together, and **`walk_recursively`** is the recursion that a walk is equal to.
* **`node?_foldl_modify`** is a change of some tables, one after the other, and **`DirectorySet`** what it comes to.
* **`Walks`** collects the results, and **`walks_of_history`** says that they hold of every forest that can be built.
-/

namespace TableForest

/-- A table in its place with another working directory. -/
def ForestNode.withDirectory (n : ForestNode) (dir : Option Path) : ForestNode :=
  { n with table := { n.table with workingDir := dir } }

namespace Forest

variable {f : Forest}

/-! ## The loop -/

/-- A walk in the middle of its work. -/
structure WalkState where
  /-- The tables that are still to be met with all below them; the next one stands last. -/
  stack : List TableId
  visited : List TableId

/-- One round of the loop.  Nothing happens any more once the stack is empty. -/
def walkRound (f : Forest) (s : WalkState) : Except TableError WalkState :=
  match s.stack.getLast? with
  | none => .ok s
  | some id => (f.node id).map fun n => ⟨s.stack.dropLast ++ n.children.reverse, s.visited ++ [id]⟩

def walkRounds (f : Forest) : Nat → WalkState → Except TableError WalkState
  | 0, s => .ok s
  | rounds + 1, s => f.walkRound s >>= f.walkRounds rounds

theorem walkRound_concat {id : TableId} {n : ForestNode} (hnode : f.node? id = some n) (stack visited : List TableId) :
    f.walkRound ⟨stack ++ [id], visited⟩ = .ok ⟨stack ++ n.children.reverse, visited ++ [id]⟩ := by
  unfold walkRound
  rw [List.getLast?_concat]
  dsimp only
  rw [node_eq_ok.2 hnode, List.dropLast_concat]
  rfl

theorem walkRounds_done (f : Forest) (visited : List TableId) :
    ∀ rounds, f.walkRounds rounds ⟨[], visited⟩ = .ok ⟨[], visited⟩
  | 0 => rfl
  | rounds + 1 => walkRounds_done f visited rounds

/-- **The loop meets one table in each round**, and it is done after as many rounds as there are tables to meet. -/
theorem Visits.walkRounds {stack v : List TableId} (h : f.Visits stack v) (rounds : Nat) (visited : List TableId) :
    ∃ left, f.walkRounds rounds ⟨stack.reverse, visited⟩ = .ok ⟨left, visited ++ v.take rounds⟩ ∧
      (left = [] ↔ v.length ≤ rounds) := by
  -- the induction follows the free walk; the stack is kept with its top at the end
  induction h generalizing rounds visited with
  | nil =>
    refine ⟨[], ?_, iff_of_true rfl (Nat.zero_le _)⟩
    rw [List.reverse_nil, walkRounds_done, List.take_nil, List.append_nil]
  | @cons id n stack v hnode _ ih =>
    -- if no round is left, the whole stack is
    cases rounds with
    | zero =>
      refine ⟨(id :: stack).reverse, ?_, iff_of_false ?_ (Nat.not_succ_le_zero _)⟩
      · rw [List.take_zero, List.append_nil]
        rfl
      · rw [List.reverse_eq_nil_iff]
        nofun
    | succ rounds =>
      obtain ⟨left, hleft, hdone⟩ := ih rounds (visited ++ [id])
      refine ⟨left, ?_, hdone.trans Nat.succ_le_succ_iff.symm⟩
      rw [List.reverse_append] at hleft
      rw [List.reverse_cons, Forest.walkRounds, walkRound_concat hnode, List.take_succ_cons]
      show f.walkRounds rounds _ = _
      rw [hleft, List.append_assoc]
      rfl

/-! ## The recursion -/

/-- The walks below some tables, one after the other, are a walk with these tables on its stack. -/
theorem mapM_walk (h : f.Linked) {ids : List TableId} (hlive : ∀ id ∈ ids, ∃ n, f.node? id = some n) :
    ∃ walks, ids.mapM f.walk = .ok walks ∧ f.Visits ids walks.flatten := by
  induction ids with
  | nil => exact ⟨[], rfl, .nil⟩
  | cons id rest ih =>
    rw [List.forall_mem_cons] at hlive
    obtain ⟨n, hn⟩ := hlive.1
    obtain ⟨v, hwalk, hv, -⟩ := walk_eq_ok h hn
    obtain ⟨walks, hwalks, hrest⟩ := ih hlive.2
    refine ⟨v :: walks, ?_, hv.append hrest⟩
    rw [List.mapM_cons, hwalk, hwalks]
    rfl

/-- **A walk is the table and the walks below its children**, in their order. -/
theorem walk_recursively (h : f.Linked) {id : TableId} {n : ForestNode} (hnode : f.node? id = some n)
    {v : List TableId} (hv : f.Visits [id] v) :
    ∃ below, n.children.mapM f.walk = .ok below ∧ v = id :: below.flatten := by
  have hlive : ∀ c ∈ n.children, ∃ m, f.node? c = some m := fun c hc =>
    exists_node?_of_parentOf? ((h.children (childrenOf?_of_node? hnode) c).1 hc)
  obtain ⟨below, hbelow, hvisits⟩ := mapM_walk h hlive
  refine ⟨below, hbelow, hv.unique (.cons hnode ?_)⟩
  rw [List.append_nil]
  exact hvisits

theorem walkAll_recursively (h : f.Linked) :
    ∃ walks, f.roots.mapM f.walk = .ok walks ∧ f.walkAll = walks.flatten := by
  obtain ⟨walks, hwalks, hvisits⟩ := mapM_walk h fun r hr => exists_node?_of_parentOf? ((h.roots r).1 hr)
  exact ⟨walks, hwalks, (walkAll_visits h).unique hvisits⟩

/-! ## A change along a walk -/

/-- A change of some tables, one after the other, is seen at each of them and nowhere else. -/
theorem node?_foldl_modify (change : ForestNode → ForestNode) {ids : List TableId} (hnodup : ids.Nodup) :
    ∀ (f : Forest) (other : TableId), (ids.foldl (fun f i => f.modify i change) f).node? other =
      if other ∈ ids then (f.node? other).map change else f.node? other := by
  -- each change is made to a table of its own, so their order does not count
  induction ids with
  | nil =>
    intro f other
    rw [if_neg List.not_mem_nil]
    rfl
  | cons id rest ih =>
    intro f other
    obtain ⟨hid, hrest⟩ := List.nodup_cons.1 hnodup
    rw [List.foldl_cons, ih hrest, node?_modify]
    by_cases heq : other = id
    · subst heq
      rw [if_neg hid, if_pos rfl, if_pos List.mem_cons_self]
    · rw [if_neg heq]
      simp only [List.mem_cons, heq, false_or]

theorem links_foldl_modify (change : ForestNode → ForestNode) (ids : List TableId) :
    ∀ f : Forest, (ids.foldl (fun f i => f.modify i change) f).roots = f.roots ∧
      (ids.foldl (fun f i => f.modify i change) f).nodes.length = f.nodes.length := by
  induction ids with
  | nil => exact fun f => ⟨rfl, rfl⟩
  | cons id rest ih =>
    intro f
    obtain ⟨hroots, hlength⟩ := ih (f.modify id change)
    exact ⟨hroots, hlength.trans (List.length_modify _ _ _)⟩

/-- A forest is another one in which a table and all below it have got a working directory. -/
structure DirectorySet (f g : Forest) (id : TableId) (dir : Option Path) : Prop where
  roots : g.roots = f.roots
  length : g.nodes.length = f.nodes.length
  below : ∀ other, f.IsBelow id other → g.node? other = (f.node? other).map (·.withDirectory dir)
  others : ∀ other, ¬f.IsBelow id other → g.node? other = f.node? other

/-- **A working directory is set for the table and all below it**, and nothing else is changed. -/
theorem setWorkingDirRecursive_below (h : f.Linked) {id : TableId} {n : ForestNode} (hnode : f.node? id = some n)
    (dir : Option Path) : ∃ g, f.setWorkingDirRecursive id dir = .ok g ∧ f.DirectorySet g id dir := by
  obtain ⟨v, hwalk, -, hnodup, hmem⟩ := walk_eq_ok h hnode
  have hchanged := node?_foldl_modify (·.withDirectory dir) hnodup f
  obtain ⟨hroots, hlength⟩ := links_foldl_modify (·.withDirectory dir) v f
  refine ⟨_, ?_, hroots, hlength, fun other hbelow => ?_, fun other hother => ?_⟩
  · unfold setWorkingDirRecursive
    rw [hwalk]
    rfl
  · rw [hchanged, if_pos ((hmem other).2 hbelow)]
  · rw [hchanged, if_neg (mt (hmem other).1 hother)]

/-! ## Forests that can be built -/

/-- What is met on the way below a table. -/
structure WalksBelow (f : Forest) (id : TableId) (n : ForestNode) (v : List TableId) : Prop where
  walk : f.walk id = .ok v
  /-- The table comes first, and then what is below its children, from child to child. -/
  order : ∃ below, n.children.mapM f.walk = .ok below ∧ v = id :: below.flatten
  nodup : v.Nodup
  mem : ∀ other, other ∈ v ↔ f.IsBelow id other
  /-- The loop meets these tables one by one, and then it ends. -/
  rounds : ∀ rounds, ∃ left, f.walkRounds rounds ⟨[id], []⟩ = .ok ⟨left, v.take rounds⟩ ∧
    (left = [] ↔ v.length ≤ rounds)

/-- **What walks come to**, and what is done along them. -/
structure Walks (f : Forest) : Prop where
  below : ∀ {id n}, f.node? id = some n → ∃ v, f.WalksBelow id n v
  all : ∃ walks, f.roots.mapM f.walk = .ok walks ∧ f.walkAll = walks.flatten
  allNodup : f.walkAll.Nodup
  allMem : ∀ id, id ∈ f.walkAll ↔ ∃ n, f.node? id = some n
  allLength : f.walkAll.length = f.size
  directory : ∀ {id n}, f.node? id = some n → ∀ dir, ∃ g, f.setWorkingDirRecursive id dir = .ok g ∧
    f.DirectorySet g id dir

theorem Linked.walks (h : f.Linked) : f.Walks where
  below := by
    intro id n hnode
    obtain ⟨v, hwalk, hv, hnodup, hmem⟩ := walk_eq_ok h hnode
    exact ⟨v, hwalk, walk_recursively h hnode hv, hnodup, hmem, fun rounds => hv.walkRounds rounds []⟩
  all := walkAll_recursively h
  allNodup := nodup_walkAll h
  allMem := mem_walkAll h
  allLength := length_walkAll h
  directory := setWorkingDirRecursive_below h

/-- **Every forest that can be built is walked in its order**, below a table as well as from root to root. -/
theorem walks_of_history (history : List ForestOperation) : (empty.run history).Walks :=
  (sound_empty.run history).linked.walks

end Forest
end TableForest
