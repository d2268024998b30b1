import TableForest.Proofs.Forest.Depth
import TableForest.Proofs.Forest.History

/-!
# Handles of a forest

A handle is the place of a table in the arena.  New tables come behind the last place and removed ones leave their
place empty, so what a handle led to once it never leads to anything else.

## The architecture

* **`Forest.Extends`** relates a forest to a later one: the arena is longer by no more than the tables that were
  added, and no handle that led nowhere leads anywhere.  It composes, so a history has it because its steps do.
* **`extends_run`** also counts the insertions of a history, which bounds the handles in use
  (**`index_lt_of_history`**).
* **`Forest.Unknown`** is what is answered about a handle that leads nowhere, and **`unknown_of_removed`** says that
  nothing else is ever answered about a removed one.
-/

namespace TableForest

/-- How many tables an operation adds if it succeeds. -/
def ForestOperation.additions : ForestOperation → Nat
  | .insertRoot _ _ => 1
  | .insertChild _ _ _ => 1
  | _ => 0

/-- How many tables a history adds if all of it succeeds. -/
def ForestOperation.totalAdditions : List ForestOperation → Nat
  | [] => 0
  | op :: rest => op.additions + totalAdditions rest

namespace Forest

variable {f g k : Forest}

/-! ## Later forests -/

/-- At most `added` handles are new, and none that led nowhere leads anywhere. -/
structure Extends (f g : Forest) (added : Nat) : Prop where
  longer : f.nodes.length ≤ g.nodes.length
  bounded : g.nodes.length ≤ f.nodes.length + added
  unused : ∀ {id}, id.index < f.nodes.length → f.node? id = none → g.node? id = none

namespace Extends

theorem refl (f : Forest) (added : Nat) : f.Extends f added where
  longer := Nat.le_refl _
  bounded := Nat.le_add_right _ _
  unused := fun _ h => h

theorem trans {m n : Nat} (hfg : f.Extends g m) (hgk : g.Extends k n) : f.Extends k (m + n) where
  longer := Nat.le_trans hfg.longer hgk.longer
  bounded := by
    have hg := hfg.bounded
    have hk := hgk.bounded
    omega
  unused := fun hlt h => hgk.unused (Nat.lt_of_lt_of_le hlt hfg.longer) (hfg.unused hlt h)

/-- Roots are no part of the arena. -/
theorem withRoots (h : f.Extends g 0) (roots : List TableId) : f.Extends { g with roots := roots } 0 :=
  ⟨h.longer, h.bounded, h.unused⟩

theorem modify (f : Forest) (id : TableId) (change : ForestNode → ForestNode) :
    f.Extends (f.modify id change) 0 where
  longer := by simp [Forest.modify]
  bounded := by simp [Forest.modify]
  unused := by
    intro other _ h
    rw [node?_modify, h]
    simp

theorem clear (f : Forest) (id : TableId) : f.Extends { f with nodes := f.nodes.set id.index none } 0 where
  longer := by simp
  bounded := by simp
  unused := by
    intro other _ h
    rw [node?_set_none, h]
    simp

end Extends

theorem extends_insertRoot (t : Table) : f.Extends (f.insertRoot t).2 1 where
  longer := by simp [insertRoot, allocate]
  bounded := by simp [insertRoot, allocate]
  unused := by
    intro id hlt h
    have hnew : id ≠ f.nextId := by
      rintro rfl
      exact absurd hlt (Nat.lt_irrefl _)
    rw [node?_insertRoot, if_neg hnew, h]

theorem extends_insertChild {parent id : TableId} {t : Table} (h : f.insertChild parent t = .ok (id, g)) :
    f.Extends g 1 := by
  obtain ⟨hid, hlength⟩ := nextId_of_insertChild h
  have hadds := addsChild_of_insertChild h
  refine ⟨by omega, by omega, fun {other} hlt hnone => ?_⟩
  obtain ⟨n, hn, -⟩ := hadds.parentGrows
  have hparent : other ≠ parent := by
    rintro rfl
    rw [hn] at hnone
    cases hnone
  have hnew : other ≠ id := by
    rintro rfl
    rw [hid] at hlt
    exact absurd hlt (Nat.lt_irrefl _)
  rw [hadds.others other hparent hnew, hnone]

theorem extends_unlink {parent id : TableId} (h : f.unlink parent id = .ok g) : f.Extends g 0 := by
  obtain rfl := eq_modify_of_unlink h
  exact .modify f parent _

theorem extends_detach {id : TableId} (h : f.detach id = .ok g) : f.Extends g 0 := by
  obtain ⟨-, rfl⟩ | ⟨p, u, -, hunlink, rfl⟩ := detach_cases h
  · exact .refl g 0
  · exact ((extends_unlink hunlink).trans (.modify u id _)).withRoots _

theorem extends_remove {id : TableId} {t : Table} (h : f.remove id = .ok (t, g)) : f.Extends g 0 := by
  obtain ⟨n, u, -, -, rfl, hfrom⟩ := remove_cases h
  obtain ⟨-, rfl⟩ | ⟨p, -, hunlink⟩ := hfrom
  · have hroots := (Extends.refl f 0).withRoots (f.roots.filter (· ≠ id))
    exact hroots.trans (.clear _ id)
  · exact (extends_unlink hunlink).trans (.clear u id)

theorem extends_setWorkingDirRecursive {id : TableId} {dir : Option Path}
    (h : f.setWorkingDirRecursive id dir = .ok g) : f.Extends g 0 := by
  unfold Forest.setWorkingDirRecursive at h
  rw [Except.bind_eq_ok] at h
  obtain ⟨ids, -, hset⟩ := h
  obtain rfl := Except.ok.inj hset
  clear hset
  induction ids generalizing f with
  | nil => exact .refl f 0
  | cons i rest ih => exact (Extends.modify f i _).trans ih

/-! ## Histories -/

theorem extends_report {answer : Except TableError Forest} {added : Nat}
    (h : ∀ g, answer = .ok g → f.Extends g added) : f.Extends (f.report answer).2 added := by
  cases answer with
  | error e => exact .refl f added
  | ok g => exact h g rfl

theorem extends_report_snd {α : Type} {answer : Except TableError (α × Forest)} {added : Nat}
    (h : ∀ a g, answer = .ok (a, g) → f.Extends g added) :
    f.Extends (f.report (answer.map Prod.snd)).2 added := by
  cases answer with
  | error e => exact .refl f added
  | ok pair => exact h pair.1 pair.2 rfl

theorem extends_report_setTable (id : TableId) (change : Table → Table) :
    f.Extends (f.report ((f.table id).map fun t => f.setTable id (change t))).2 0 := by
  cases f.table id with
  | error e => exact .refl f 0
  | ok t => exact .modify f id _

theorem extends_perform (f : Forest) (op : ForestOperation) : f.Extends (f.perform op).2 op.additions := by
  cases op with
  | insertRoot name history => exact extends_insertRoot _
  | insertChild parent name history => exact extends_report_snd fun _ _ h => extends_insertChild h
  | detach id => exact extends_report fun _ h => extends_detach h
  | remove id => exact extends_report_snd fun _ _ h => extends_remove h
  | setWorkingDirRecursive id dir => exact extends_report fun _ h => extends_setWorkingDirRecursive h
  | edit id history => exact extends_report_setTable id (·.run history)
  | replace id name history => exact extends_report_setTable id fun _ => .made name history

/-- **What a history does to the handles**: it adds no more than its insertions, and revives none. -/
theorem extends_run (f : Forest) (history : List ForestOperation) :
    f.Extends (f.run history) (ForestOperation.totalAdditions history) := by
  induction history generalizing f with
  | nil => exact .refl f 0
  | cons op rest ih =>
    rw [ForestOperation.totalAdditions]
    exact (extends_perform f op).trans (ih (f.perform op).2)

/-- A history with fewer insertions than there are handles never runs out of them. -/
theorem index_lt_of_history (history : List ForestOperation) {id : TableId} {n : ForestNode}
    (h : (empty.run history).node? id = some n) : id.index < ForestOperation.totalAdditions history := by
  have hlt := index_lt_of_node? h
  have hbounded : (empty.run history).nodes.length ≤ 0 + ForestOperation.totalAdditions history :=
    (extends_run empty history).bounded
  omega

/-! ## Handles that lead nowhere -/

/-- Whatever is asked of a handle, the answer is that it leads nowhere; and no new table is given it. -/
structure Unknown (f : Forest) (id : TableId) : Prop where
  table : f.table id = .error (.unknownTable id)
  walk : f.walk id = .error (.unknownTable id)
  depth : f.depth id = .error (.unknownTable id)
  pathOf : f.pathOf id = .error (.unknownTable id)
  detach : f.detach id = .error (.unknownTable id)
  remove : f.remove id = .error (.unknownTable id)
  insertChild : ∀ t, f.insertChild id t = .error (.unknownTable id)
  setWorkingDirRecursive : ∀ dir, f.setWorkingDirRecursive id dir = .error (.unknownTable id)
  notNew : f.nextId ≠ id

theorem unknown_of_unused {id : TableId} (hlt : id.index < f.nodes.length) (h : f.node? id = none) :
    f.Unknown id := by
  have hnode : f.node id = .error (.unknownTable id) := by
    unfold node
    rw [h]
  -- every operation looks its table up first, and nothing comes after that failure
  have hfails : ∀ {α : Type} (next : ForestNode → Except TableError α),
      (f.node id >>= next) = .error (.unknownTable id) := by
    intro α next
    rw [hnode]
    rfl
  have hancestors : f.ancestors id = .error (.unknownTable id) := hfails _
  have hwalk : f.walk id = .error (.unknownTable id) := hfails _
  exact {
    table := by rw [Forest.table, hnode]; rfl
    walk := hwalk
    depth := by rw [Forest.depth, hancestors]; rfl
    pathOf := by rw [Forest.pathOf, hancestors]; rfl
    detach := hfails _
    remove := hfails _
    insertChild := fun _ => hfails _
    setWorkingDirRecursive := fun dir => by rw [Forest.setWorkingDirRecursive, hwalk]; rfl
    notNew := by
      rintro rfl
      exact absurd hlt (Nat.lt_irrefl _) }

/-- **A removed table is never known again**, and its handle is given to no other. -/
theorem unknown_of_removed {id : TableId} {t : Table} (hremove : f.remove id = .ok (t, g))
    (later : List ForestOperation) : (g.run later).Unknown id := by
  obtain ⟨q, hparent, -, hparents, -, -⟩ := links_of_remove hremove
  have hlt : id.index < g.nodes.length :=
    Nat.lt_of_lt_of_le (index_lt_of_parentOf? hparent) (extends_remove hremove).longer
  have hnone : g.node? id = none := Option.map_eq_none_iff.1 ((hparents id).trans (if_pos rfl))
  have hlater := extends_run g later
  exact unknown_of_unused (Nat.lt_of_lt_of_le hlt hlater.longer) (hlater.unused hlt hnone)

end Forest
end TableForest
