import TableForest.Forest.Operation
import TableForest.Proofs.Forest.Linked
import TableForest.Proofs.Table.Shape

/-!
# Forests that can be built

A forest is sound if it is linked and all its tables have their shape.  **`Forest.Sound.perform`** says that one
operation keeps that, and **`Forest.Sound.run`** goes through a history of operations.
-/

namespace TableForest.Forest

variable {f g : Forest}

/-- A forest is linked, and all its tables have their shape. -/
structure Sound (f : Forest) : Prop where
  linked : f.Linked
  shapes : ∀ {id t}, f.tableOf? id = some t → t.Shape

theorem sound_empty : Forest.empty.Sound where
  linked := linked_empty
  shapes := fun h => nomatch h

/-- Every table that is in `g` and not in `f` has its shape. -/
theorem Sound.of_tables (h : f.Sound) (hlinked : g.Linked)
    (htables : ∀ id t, g.tableOf? id = some t → f.tableOf? id = some t ∨ t.Shape) : g.Sound where
  linked := hlinked
  shapes := fun {id t} ht => (htables id t ht).elim h.shapes fun hshape => hshape

/-! ## Operations -/

theorem Sound.insertRoot (h : f.Sound) {t : Table} (ht : t.Shape) : (f.insertRoot t).2.Sound := by
  refine h.of_tables (h.linked.insertRoot t) fun id s hs => ?_
  unfold tableOf? at hs
  rw [node?_insertRoot] at hs
  split at hs
  · obtain rfl := Option.some.inj hs
    exact .inr ht
  · exact .inl hs

theorem Sound.insertChild (h : f.Sound) {t : Table} (ht : t.Shape) {parent id : TableId}
    (hinsert : f.insertChild parent t = .ok (id, g)) : g.Sound := by
  refine h.of_tables (h.linked.insertChild hinsert) fun other s hs => ?_
  have hadds := addsChild_of_insertChild hinsert
  obtain ⟨n, hn, hgrown⟩ := hadds.parentGrows
  -- the new table has its shape, the parent keeps its table, and the others are not touched
  by_cases hid : other = id
  · rw [hid, tableOf?_of_node? hadds.added] at hs
    obtain rfl := Option.some.inj hs
    exact .inr ht
  · by_cases hparent : other = parent
    · rw [hparent, tableOf?_of_node? hgrown] at hs
      rw [hparent, tableOf?_of_node? hn]
      exact .inl hs
    · unfold tableOf? at hs
      rw [hadds.others other hparent hid] at hs
      exact .inl hs

theorem Sound.modifyTable (h : f.Sound) (id : TableId) (change : Table → Table)
    (hchange : ∀ t, f.tableOf? id = some t → (change t).Shape) :
    (f.modify id fun n => { n with table := change n.table }).Sound := by
  refine h.of_tables (h.linked.modifyTable id change) fun other s hs => ?_
  obtain ⟨-, -, htables⟩ := links_of_modify_table f id change
  rw [htables] at hs
  split at hs
  · rename_i heq
    obtain ⟨t, ht, rfl⟩ := Option.map_eq_some_iff.1 hs
    exact .inr (hchange t (heq ▸ ht))
  · exact .inl hs

theorem Sound.detach (h : f.Sound) {id : TableId} (hdetach : f.detach id = .ok g) : g.Sound := by
  refine h.of_tables (h.linked.detach hdetach) fun other s hs => .inl ?_
  obtain ⟨-, rfl⟩ | ⟨p, -, -, -, htables⟩ := links_of_detach hdetach
  · exact hs
  · rw [← htables]
    exact hs

theorem Sound.remove (h : f.Sound) {id : TableId} {t : Table} (hremove : f.remove id = .ok (t, g)) :
    g.Sound := by
  refine h.of_tables (h.linked.remove hremove) fun other s hs => .inl ?_
  obtain ⟨q, -, -, -, -, htables⟩ := links_of_remove hremove
  rw [htables] at hs
  split at hs
  · cases hs
  · exact hs

theorem Sound.setWorkingDirRecursive (h : f.Sound) {id : TableId} {dir : Option Path}
    (hset : f.setWorkingDirRecursive id dir = .ok g) : g.Sound := by
  unfold Forest.setWorkingDirRecursive at hset
  rw [Except.bind_eq_ok] at hset
  obtain ⟨ids, -, hfold⟩ := hset
  obtain rfl := Except.ok.inj hfold
  clear hfold
  induction ids generalizing f with
  | nil => exact h
  | cons i rest ih =>
    refine ih (h.modifyTable i (fun t => { t with workingDir := dir }) fun t ht => ?_)
    have hshape := h.shapes ht
    exact ⟨hshape.fits, hshape.rowless⟩

theorem shape_made (name : String) (history : List TableOperation) : (Table.made name history).Shape :=
  (Table.Shape.empty name).run history

/-- What a success leaves is sound, and a failure changes nothing. -/
theorem Sound.report (h : f.Sound) {answer : Except TableError Forest}
    (hanswer : ∀ g, answer = .ok g → g.Sound) : (f.report answer).2.Sound := by
  cases answer with
  | error e => exact h
  | ok g => exact hanswer g rfl

theorem Sound.report_snd {α : Type} (h : f.Sound) {answer : Except TableError (α × Forest)}
    (hanswer : ∀ a g, answer = .ok (a, g) → g.Sound) : (f.report (answer.map Prod.snd)).2.Sound := by
  cases answer with
  | error e => exact h
  | ok pair => exact hanswer pair.1 pair.2 rfl

/-- A table that is replaced by one that has its shape. -/
theorem Sound.replaceTable (h : f.Sound) (id : TableId) (change : Table → Table)
    (hchange : ∀ t, t.Shape → (change t).Shape) :
    (f.report ((f.table id).map fun t => f.setTable id (change t))).2.Sound := by
  cases htable : f.table id with
  | error e => exact h
  | ok t =>
    obtain ⟨n, hn, rfl⟩ := table_eq_ok.1 htable
    refine h.modifyTable id (fun _ => change n.table) fun s _ => ?_
    exact hchange n.table (h.shapes (tableOf?_of_node? hn))

/-! ## Histories -/

/-- **An operation leaves a sound forest sound.** -/
theorem Sound.perform (h : f.Sound) (op : ForestOperation) : (f.perform op).2.Sound := by
  cases op with
  | insertRoot name history => exact h.insertRoot (shape_made name history)
  | insertChild parent name history =>
    exact h.report_snd fun _ _ hinsert => h.insertChild (shape_made name history) hinsert
  | detach id => exact h.report fun _ hdetach => h.detach hdetach
  | remove id => exact h.report_snd fun _ _ hremove => h.remove hremove
  | setWorkingDirRecursive id dir => exact h.report fun _ hset => h.setWorkingDirRecursive hset
  | edit id history => exact h.replaceTable id (·.run history) fun t ht => ht.run history
  | replace id name history =>
    exact h.replaceTable id (fun _ => .made name history) fun _ _ => shape_made name history

/-- **Whatever history leads to a forest, it is sound.** -/
theorem Sound.run (h : f.Sound) (history : List ForestOperation) : (f.run history).Sound := by
  induction history generalizing f with
  | nil => exact h
  | cons op rest ih => exact ih (h.perform op)

end TableForest.Forest
