import TableForest.Forest.Steps
import TableForest.Proofs.Forest.History
import TableForest.Proofs.Steps

/-!
# Operations on forests step by step come to the same

The steps of an operation on a forest answer what the operation answers and leave what it leaves, whatever is linked
to what in the forest.  The steps of an operation that fails leave the forest as it was, and no step panics.

## The architecture

* **`change_of_node?`** says what the one step does that all changes of nodes are made of.
* **`Traces`** says that steps come to the answer and the forest of an operation, and to the old forest where the
  operation fails.
* **`ForestOperation.execute_steps`** says so of all operations, and **`ForestOperation.unchanged_of_stopped`** what is
  left by those that stop.
* **`Forest.runSteps?_eq`** speaks of all histories, and **`Forest.sound_of_steps`** is what is known of the arena and
  the roots then.
-/

namespace TableForest

namespace ForestSteps

open Steps (execute_bind execute_bind_ok execute_get_bind execute_modify execute_pure)

variable {f : Forest} {α : Type}

/-! ## Single steps -/

theorem execute_find (id : TableId) : Steps.execute (find id) f = ((f.node id).mapError .failed, f) := by
  rfl

theorem execute_find_of_node? {id : TableId} {n : ForestNode} (h : f.node? id = some n) :
    Steps.execute (find id) f = (.ok n, f) := by
  rw [execute_find, Forest.node_eq_ok.2 h]
  rfl

theorem execute_find_of_error {id : TableId} {e : TableError} (h : f.node id = .error e) :
    Steps.execute (find id) f = (.error (.failed e), f) := by
  rw [execute_find, h]
  rfl

theorem modify_eq_set {id : TableId} {n : ForestNode} (h : f.node? id = some n) (change : ForestNode → ForestNode) :
    f.modify id change = { f with nodes := f.nodes.set id.index (some (change n)) } := by
  rw [Forest.modify, List.modify_eq_set, Forest.node?_eq_some.1 h]
  rfl

theorem change_of_node? {id : TableId} {n : ForestNode} (h : f.node? id = some n) (g : ForestNode → ForestNode) :
    Steps.execute (change id g) f = (.ok (), f.modify id g) := by
  rw [change, execute_bind_ok (execute_find_of_node? h), execute_modify, modify_eq_set h]

theorem change_of_error {id : TableId} {e : TableError} (h : f.node id = .error e) (g : ForestNode → ForestNode) :
    Steps.execute (change id g) f = (.error (.failed e), f) := by
  rw [change, execute_bind, execute_find_of_error h]

/-- A table that is there is still there after a change of any table. -/
theorem exists_node?_modify {id : TableId} {n : ForestNode} (h : f.node? id = some n) (other : TableId)
    (change : ForestNode → ForestNode) : ∃ m, (f.modify other change).node? id = some m := by
  rw [Forest.node?_modify, h]
  split
  · exact ⟨_, rfl⟩
  · exact ⟨_, rfl⟩

/-! ## Steps of an operation -/

/-- Steps come to the answer of an operation and to the forest that it leaves.  If it fails, they leave the forest as
they found it. -/
def Traces (steps : Steps Forest TableError α) (f : Forest) (answer : Except TableError (α × Forest)) : Prop :=
  Steps.execute steps f = match answer with
    | .ok (a, left) => (.ok a, left)
    | .error e => (.error (.failed e), f)

/-- A table that the steps look up is one that the operation looks up, and the rest of both follows it. -/
theorem Traces.find {id : TableId} {next : ForestNode → Steps Forest TableError α}
    {rest : ForestNode → Except TableError (α × Forest)}
    (hrest : ∀ n, f.node? id = some n → Traces (next n) f (rest n)) :
    Traces (ForestSteps.find id >>= next) f (f.node id >>= rest) := by
  unfold Traces
  rw [execute_bind, execute_find]
  cases hnode : f.node id with
  | error e => rfl
  | ok n => exact hrest n (Forest.node_eq_ok.1 hnode)

theorem insertRoot_traces (t : Table) : Traces (insertRoot t) f (.ok (f.insertRoot t)) := by
  rfl

theorem insertChild_traces (parent : TableId) (t : Table) :
    Traces (insertChild parent t) f (f.insertChild parent t) := by
  refine .find fun n hparent => ?_
  -- the parent is looked up a second time, beside its new child
  have hgrown : (f.allocate t (some parent)).node? parent = some n := by
    rw [Forest.node?_allocate, if_neg (Forest.ne_nextId_of_node? hparent), hparent]
  show Steps.execute (change parent _ >>= fun _ => pure f.nextId) (f.allocate t (some parent)) = _
  rw [execute_bind_ok (change_of_node? hgrown _)]
  rfl

/-- The one step by which a table is lost to its parent. -/
theorem execute_unlink (parent id : TableId) :
    Steps.execute (change parent fun n => { n with children := n.children.filter (· ≠ id) }) f =
      match f.unlink parent id with
      | .ok u => (.ok (), u)
      | .error e => (.error (.failed e), f) := by
  unfold Forest.unlink
  cases hnode : f.node parent with
  | error e => exact change_of_error hnode _
  | ok n => exact change_of_node? (Forest.node_eq_ok.1 hnode) _

/-- A table that a parent loses is where it was. -/
theorem exists_node?_of_unlink {parent id other : TableId} {n : ForestNode} {u : Forest}
    (h : f.unlink parent id = .ok u) (hother : f.node? other = some n) :
    ∃ m, u.node? other = some m ∧ m.table = n.table := by
  rw [Forest.eq_modify_of_unlink h, Forest.node?_modify, hother]
  split
  · exact ⟨_, rfl, rfl⟩
  · exact ⟨_, rfl, rfl⟩

theorem detach_traces (id : TableId) : Traces (detach id) f (((), ·) <$> f.detach id) := by
  unfold Forest.detach
  rw [map_bind]
  refine .find fun n hid => ?_
  cases hp : n.parent with
  | none => rfl
  | some p =>
    show Steps.execute (change p _ >>= _) f = _
    -- if the parent cannot be found, nothing has been changed yet
    rw [execute_bind, execute_unlink]
    dsimp only
    cases hunlink : f.unlink p id with
    | error e => rfl
    | ok u =>
      obtain ⟨m, hm, -⟩ := exists_node?_of_unlink hunlink hid
      show Steps.execute (change id _ >>= _) u = _
      rw [execute_bind_ok (change_of_node? hm _)]
      rfl

/-- Whatever is done to the links of a table, it is found in its place, and is taken from there. -/
theorem take_of_node? {id : TableId} {n : ForestNode} (h : f.node? id = some n) :
    Steps.execute (take id) f = (.ok n, { f with nodes := f.nodes.set id.index none }) := by
  rw [take, execute_get_bind, Forest.node?_eq_some.1 h]
  rfl

theorem remove_traces (id : TableId) : Traces (remove id) f (f.remove id) := by
  refine .find fun n hid => ?_
  cases hcs : n.children.isEmpty with
  | false => rfl
  | true =>
    cases hp : n.parent with
    | none =>
      -- a root is taken out of the roots, which leaves its place as it is
      have hid' : ({ f with roots := f.roots.filter (· ≠ id) } : Forest).node? id = some n := hid
      show Steps.execute (take id >>= _) { f with roots := f.roots.filter (· ≠ id) } = _
      rw [execute_bind_ok (take_of_node? hid')]
      rfl
    | some p =>
      show Steps.execute (change p _ >>= fun _ => _) f = _
      rw [execute_bind, execute_unlink]
      dsimp only
      cases hunlink : f.unlink p id with
      | error e => rfl
      | ok u =>
        -- what is taken out of the place is the table that was found at first, whatever has been done to its links
        obtain ⟨m, hm, htable⟩ := exists_node?_of_unlink hunlink hid
        show Steps.execute (take id >>= _) u = _
        rw [execute_bind_ok (take_of_node? hm)]
        rw [execute_pure, htable]
        rfl

/-! ## Walks -/

/-- A walk that ends has found every table that it has visited. -/
theorem node?_of_mem_walkStack {steps : Nat} {stack ids : List TableId} (h : f.walkStack steps stack = .ok ids) :
    ∀ id ∈ ids, ∃ n, f.node? id = some n := by
  induction steps generalizing stack ids with
  | zero =>
    -- no step is left, and no table has been visited
    have hids : ids = [] := by
      cases stack <;> exact (Except.ok.inj h).symm
    simp [hids]
  | succ steps ih =>
    cases stack with
    | nil =>
      obtain rfl := Except.ok.inj h
      simp
    | cons id stack =>
      obtain ⟨n, hnode, h⟩ := Except.bind_eq_ok.1 h
      obtain ⟨rest, hrest, h⟩ := Except.bind_eq_ok.1 h
      obtain rfl := Except.ok.inj h
      exact List.forall_mem_cons.2 ⟨⟨n, Forest.node_eq_ok.1 hnode⟩, ih hrest⟩

/-- Changes of tables that are there are all made, one after the other. -/
theorem execute_forM_change {ids : List TableId} (h : ∀ id ∈ ids, ∃ n, f.node? id = some n)
    (g : ForestNode → ForestNode) :
    Steps.execute (ids.forM fun i => change i g) f = (.ok (), ids.foldl (fun f i => f.modify i g) f) := by
  induction ids generalizing f with
  | nil => rfl
  | cons id rest ih =>
    rw [List.forall_mem_cons] at h
    obtain ⟨⟨n, hn⟩, hrest⟩ := h
    rw [List.forM, execute_bind_ok (change_of_node? hn g)]
    refine ih fun other hother => ?_
    obtain ⟨m, hm⟩ := hrest other hother
    exact exists_node?_modify hm id g

theorem setWorkingDirRecursive_traces (id : TableId) (dir : Option Path) :
    Traces (setWorkingDirRecursive id dir) f (((), ·) <$> f.setWorkingDirRecursive id dir) := by
  unfold Traces setWorkingDirRecursive Forest.setWorkingDirRecursive
  rw [execute_get_bind, execute_bind, Steps.execute_check]
  cases hwalk : f.walk id with
  | error e => rfl
  | ok ids =>
    obtain ⟨-, -, hstack⟩ := Except.bind_eq_ok.1 hwalk
    show Steps.execute (ids.forM fun i => change i _) f = _
    rw [execute_forM_change (node?_of_mem_walkStack hstack)]
    rfl

/-- A change of the table of a handle fails only if there is none. -/
theorem change_traces (id : TableId) (g : Table → Table) :
    Traces (change id fun n => { n with table := g n.table }) f
      (((), ·) <$> (f.table id).map fun t => f.setTable id (g t)) := by
  unfold Traces Forest.table
  cases hnode : f.node id with
  | error e => exact change_of_error hnode _
  | ok n =>
    have hid := Forest.node_eq_ok.1 hnode
    rw [change_of_node? hid, modify_eq_set hid]
    show _ = (Except.ok (), f.modify id _)
    rw [modify_eq_set hid]

/-! ## All operations -/

/-- The outcome of steps is that of the operation that they come to. -/
theorem Traces.outcome {steps : Steps Forest TableError α} {answer : Except TableError (α × Forest)}
    (h : Traces steps f answer) :
    Steps.execute steps.outcome f =
      (if (f.report (answer.map Prod.snd)).1 then .ok () else .error (.failed ()),
        (f.report (answer.map Prod.snd)).2) := by
  have hsteps : Steps.execute steps f = _ := h
  rw [Steps.outcome, execute_bind, Steps.execute_wrapping, hsteps]
  rcases answer with e | ⟨a, left⟩ <;> rfl

/-- The same for an operation that answers nothing but the forest. -/
theorem Traces.outcome_of_forest {steps : Steps Forest TableError Unit} {result : Except TableError Forest}
    (h : Traces steps f (((), ·) <$> result)) :
    Steps.execute steps.outcome f =
      (if (f.report result).1 then .ok () else .error (.failed ()), (f.report result).2) := by
  rw [h.outcome]
  cases result <;> rfl

end ForestSteps

/-- An operation that fails gives back the forest that it was given. -/
theorem Forest.eq_of_perform_failed {f : Forest} {op : ForestOperation} (h : (f.perform op).1 = false) :
    (f.perform op).2 = f := by
  have hreport : ∀ {answer : Except TableError Forest}, (f.report answer).1 = false → (f.report answer).2 = f := by
    intro answer hanswer
    cases answer with
    | error e => rfl
    | ok g => cases hanswer
  cases op with
  | insertRoot name history => cases h
  | insertChild parent name history => exact hreport h
  | detach id => exact hreport h
  | remove id => exact hreport h
  | setWorkingDirRecursive id dir => exact hreport h
  | edit id history => exact hreport h
  | replace id name history => exact hreport h

/-- **Operations on forests step by step.**  The steps of an operation succeed iff the operation does, they never
panic, and they leave the same forest; that of an operation that fails is the old one. -/
theorem ForestOperation.execute_steps (f : Forest) (op : ForestOperation) :
    op.steps.execute f = (if (f.perform op).1 then .ok () else .error (.failed ()), (f.perform op).2) := by
  cases op with
  | insertRoot name history => exact (ForestSteps.insertRoot_traces (.made name history)).outcome
  | insertChild parent name history => exact (ForestSteps.insertChild_traces parent (.made name history)).outcome
  | detach id => exact (ForestSteps.detach_traces id).outcome_of_forest
  | remove id => exact (ForestSteps.remove_traces id).outcome
  | setWorkingDirRecursive id dir => exact (ForestSteps.setWorkingDirRecursive_traces id dir).outcome_of_forest
  | edit id history => exact (ForestSteps.change_traces id fun t => t.run history).outcome_of_forest
  | replace id name history => exact (ForestSteps.change_traces id fun _ => .made name history).outcome_of_forest

/-- Steps that are stopped are stopped by a failure of the operation, and the forest is what it was: no check fails once
something has been changed. -/
theorem ForestOperation.unchanged_of_stopped {f left : Forest} {op : ForestOperation} {h : Halt Unit}
    (hstopped : op.steps.execute f = (.error h, left)) : h = .failed () ∧ left = f := by
  rw [execute_steps] at hstopped
  obtain ⟨hanswer, hleft⟩ := Prod.mk.inj hstopped
  cases hperform : (f.perform op).1 with
  | true =>
    rw [hperform] at hanswer
    cases hanswer
  | false =>
    rw [hperform] at hanswer
    exact ⟨(Except.error.inj hanswer).symm, hleft.symm.trans (Forest.eq_of_perform_failed hperform)⟩

namespace Forest

/-- **Histories step by step**: no operation of a history panics, and all of it leaves what the history leaves. -/
theorem runSteps?_eq (f : Forest) (history : List ForestOperation) : f.runSteps? history = some (f.run history) := by
  induction history generalizing f with
  | nil => rfl
  | cons op rest ih =>
    have hrest : (f.perform op).2.runSteps? rest = some (f.run (op :: rest)) := ih _
    -- a failure is no panic, so the next operation is taken up in both cases
    rw [runSteps?, ForestOperation.execute_steps f op, ← hrest]
    cases (f.perform op).1 <;> rfl

/-- **Whatever is done to a new forest, step by step, its arena and its roots are linked afterwards**, and all its
tables have their shape: any operation of the history may fail, and none panics. -/
theorem sound_of_steps (history : List ForestOperation) :
    ∃ f, Forest.empty.runSteps? history = some f ∧ f.Sound :=
  ⟨_, runSteps?_eq empty history, sound_empty.run history⟩

end Forest

end TableForest
