import TableForest.Proofs.Document.Forest
import TableForest.Proofs.Document.Table
import TableForest.Proofs.Except

/-!
# What is wrong with a document

A document that is not acceptable is refused for the first thing that is wrong with it: its version, or else the
first faulty column of the first faulty table.  A table comes before all that is below it, and that before the
tables that follow.

## The architecture

* **`ColumnDocument.Fault`**, **`TableDocument.Fault`** and **`TreeDocument.Fault`** say what is wrong, without the
  reader: **`FirstFault`** picks the first member of a list that is not right.
* Each part is acceptable or has a fault (**`acceptable_or_fault`**), and the reader refuses what has one with that
  fault (**`addColumns_of_fault`**, **`toTable_of_fault`**).
* Where tables stand in a document makes no difference to that: **`plantAll_of_unread`** and
  **`plantRoots_of_unread`** fail as reading the tables one after the other fails.
* **`TreeDocument.toForest_outcome`** settles which documents are accepted, and why the others are not.
-/

namespace TableForest

section FirstFault

variable {α ε : Type} (Right : α → Prop) (Fault : α → ε → Prop)

/-- What is wrong with the first member of a list that is not right. -/
def FirstFault (xs : List α) (e : ε) : Prop :=
  ∃ before x after, xs = before ++ x :: after ∧ (∀ y ∈ before, Right y) ∧ Fault x e

/-- If each member of a list is right or has a fault, all are right or there is a first fault. -/
theorem forall_or_firstFault {xs : List α} (h : ∀ x ∈ xs, Right x ∨ ∃ e, Fault x e) :
    (∀ x ∈ xs, Right x) ∨ ∃ e, FirstFault Right Fault xs e := by
  induction xs with
  | nil => exact .inl nofun
  | cons x rest ih =>
    rw [List.forall_mem_cons] at h
    obtain ⟨hx | ⟨e, hx⟩, hrest⟩ := h
    · obtain hall | ⟨e, before, y, after, rfl, hbefore, hy⟩ := ih hrest
      · exact .inl (List.forall_mem_cons.2 ⟨hx, hall⟩)
      · exact .inr ⟨e, x :: before, y, after, rfl, List.forall_mem_cons.2 ⟨hx, hbefore⟩, hy⟩
    · exact .inr ⟨e, [], x, rest, rfl, nofun, hx⟩

end FirstFault

/-! ## Columns -/

namespace ColumnDocument

/-- What is wrong with a column of a table of so many rows.  Its texts come first, then its name, and its length
last. -/
inductive Fault (table : String) (rows : Nat) (c : ColumnDocument) : StorageError → Prop
  | cell {before after : List String} {s : String} (cells : c.cells = before ++ s :: after)
      (spelled : ∀ s ∈ before, c.Spells s) (unspelled : ¬c.Spells s) :
      Fault table rows c (.cell table c.name before.length (.unreadable c.kind s))
  | unnamed (spelled : ∀ s ∈ c.cells, c.Spells s) (name : c.name = "") :
      Fault table rows c (.table table .emptyColumnName)
  | ragged (spelled : ∀ s ∈ c.cells, c.Spells s) (named : c.name ≠ "") (length : c.cells.length ≠ rows) :
      Fault table rows c (.table table (.cellCount rows c.cells.length))

theorem acceptable_or_fault (table : String) (rows : Nat) (c : ColumnDocument) :
    c.Acceptable rows ∨ ∃ e, c.Fault table rows e := by
  have htexts := forall_or_firstFault c.Spells (fun s (_ : Unit) => ¬c.Spells s)
    fun s (_ : s ∈ c.cells) => (em (c.Spells s)).imp_right fun h => ⟨(), h⟩
  obtain hspelled | ⟨-, before, s, after, hcells, hbefore, hs⟩ := htexts
  · by_cases hname : c.name = ""
    · exact .inr ⟨_, .unnamed hspelled hname⟩
    · by_cases hlength : c.cells.length = rows
      · exact .inl ⟨hspelled, hname, hlength⟩
      · exact .inr ⟨_, .ragged hspelled hname hlength⟩
  · exact .inr ⟨_, .cell hcells hbefore hs⟩

theorem parse_of_not_spells {c : ColumnDocument} {s : String} (h : ¬c.Spells s) :
    Cell.parse c.kind c.subtype s = .error (.unreadable c.kind s) := by
  unfold Cell.parse
  unfold Spells Value.parse at h
  unfold Value.parse
  cases hread : Value.read? c.kind s with
  | some v => exact absurd ⟨v, by rw [hread]⟩ h
  | none => rfl

/-- The first text that spells no value is what cannot be read. -/
theorem readCells_of_not_spells (table : String) {c : ColumnDocument} {before after : List String} {s : String}
    (hbefore : ∀ s ∈ before, c.Spells s) (hs : ¬c.Spells s) (row : Nat) :
    c.readCells table row (before ++ s :: after) =
      .error (.cell table c.name (row + before.length) (.unreadable c.kind s)) := by
  induction before generalizing row with
  | nil =>
    rw [List.nil_append, readCells, parse_of_not_spells hs]
    rfl
  | cons first rest ih =>
    rw [List.forall_mem_cons] at hbefore
    obtain ⟨⟨v, hv⟩, hrest⟩ := hbefore
    rw [List.cons_append, readCells, Cell.parse, hv]
    simp only [Except.map, ih hrest (row + 1), List.length_cons, Nat.add_assoc, Nat.add_comm 1]

end ColumnDocument

/-! ## Tables -/

namespace TableDocument

/-- What is wrong with the first faulty column of a table. -/
def Fault (d : TableDocument) (e : StorageError) : Prop :=
  FirstFault (·.Acceptable d.rows) (·.Fault d.name d.rows) d.columns e

theorem acceptable_or_fault (d : TableDocument) : d.Acceptable ∨ ∃ e, d.Fault e :=
  forall_or_firstFault _ _ fun c _ => c.acceptable_or_fault d.name d.rows

theorem addColumns_append (t : Table) (columns others : List ColumnDocument) :
    addColumns t (columns ++ others) = addColumns t columns >>= (addColumns · others) := by
  induction columns generalizing t with
  | nil => rfl
  | cons c rest ih =>
    rw [List.cons_append, addColumns, addColumns]
    cases c.readCells t.name 0 c.cells with
    | error e => rfl
    | ok cells =>
      simp only [bind, Except.bind]
      cases t.addColumnWithCells c.info cells with
      | mk answer t' =>
        cases answer with
        | error e => rfl
        | ok i => exact ih t'

/-- **A faulty column is refused for its fault.**  The first column of a table is as long as it has rows. -/
theorem addColumns_of_fault {t : Table} {c : ColumnDocument} {rows : Nat} {e : StorageError}
    (h : c.Fault t.name rows e) (hrows : t.columns = [] ∧ c.cells.length = rows ∨ t.columns ≠ [] ∧ t.rows = rows)
    (rest : List ColumnDocument) : addColumns t (c :: rest) = .error e := by
  rw [addColumns]
  -- the three faults in the order in which they are looked for: a cell, the name, the number of cells
  cases h with
  | cell hcells hbefore hs =>
    rw [hcells, c.readCells_of_not_spells t.name hbefore hs 0, Nat.zero_add]
    rfl
  | unnamed hspelled hname =>
    obtain ⟨cells, hread, -⟩ := c.readCells_of_spelled t.name hspelled 0
    have hrefused : t.addColumnWithCells c.info cells = (.error .emptyColumnName, t) := by
      unfold Table.addColumnWithCells ColumnDocument.info
      rw [hname]
      rfl
    simp only [hread, bind, Except.bind, hrefused]
    rfl
  | ragged hspelled hname hlength =>
    -- the first column gives the table its rows, so only a later one can be ragged
    obtain ⟨hempty, hfirst⟩ | ⟨hne, hrows⟩ := hrows
    · exact absurd hfirst hlength
    obtain ⟨cells, hread, hcells⟩ := c.readCells_of_spelled t.name hspelled 0
    have hcount : cells.length = c.cells.length := hcells.length_eq.symm
    have hchecked : Table.checkName c.info.name = .ok () := Table.checkName_eq_ok.2 hname
    have hrefused : t.addColumnWithCells c.info cells =
        (.error (.cellCount rows c.cells.length), t) := by
      unfold Table.addColumnWithCells Table.requiring
      simp [hchecked, hne, hrows, hcount, hlength]
    simp only [hread, bind, Except.bind, hrefused]
    rfl

/-- **A faulty table is refused for its fault.** -/
theorem toTable_of_fault {d : TableDocument} {e : StorageError} (h : d.Fault e) : d.toTable = .error e := by
  obtain ⟨before, c, after, hcolumns, hbefore, hc⟩ := h
  obtain ⟨added, hadded, hread⟩ := addColumns_of_acceptable hbefore
    (t := ⟨d.name, [], 0, d.workingDir, d.creation, d.linkPolicy.getD .standard⟩) (.inl rfl)
  show addColumns ⟨d.name, [], 0, d.workingDir, d.creation, d.linkPolicy.getD .standard⟩ d.columns = .error e
  rw [hcolumns, addColumns_append, hadded]
  -- The columns before the faulty one are in the table; if there are none, it decides how many rows there are.
  refine addColumns_of_fault hc ?_ after
  cases hread with
  | nil =>
    refine .inl ⟨rfl, ?_⟩
    unfold rows
    rw [hcolumns]
    rfl
  | cons hfirst hothers => exact .inr ⟨List.cons_ne_nil _ _, rfl⟩

/-- **Which tables are built.** -/
theorem exists_toTable_iff {d : TableDocument} : (∃ t, d.toTable = .ok t) ↔ d.Acceptable := by
  constructor
  · rintro ⟨t, ht⟩
    obtain h | ⟨e, he⟩ := d.acceptable_or_fault
    · exact h
    · cases ht.symm.trans (toTable_of_fault he)
  · intro h
    obtain ⟨columns, hbuilt, -⟩ := toTable_of_acceptable h
    exact ⟨_, hbuilt⟩

/-- Tables are read in order: one, then all below it, then the others. -/
theorem mapM_allInOrder_cons_eq_error {d : TableDocument} {rest : List TableDocument} {e : StorageError} :
    (allInOrder (d :: rest)).mapM toTable = .error e ↔
      d.toTable = .error e ∨ ∃ t, d.toTable = .ok t ∧
        ((allInOrder d.children).mapM toTable = .error e ∨
          ∃ ts, (allInOrder d.children).mapM toTable = .ok ts ∧ (allInOrder rest).mapM toTable = .error e) := by
  rw [allInOrder_cons, Except.mapM_cons_eq_error, Except.mapM_append_eq_error]

/-- **What is below a table is refused for the first table that cannot be read.** -/
theorem plantAll_of_unread {ds : List TableDocument} {e : StorageError}
    (h : (allInOrder ds).mapM toTable = .error e) (name : String) {parent : TableId} {f : Forest} {n : ForestNode}
    (hparent : f.node? parent = some n) : plantAll name parent f ds = .error e := by
  induction ds using tables_induction generalizing name parent f n with
  | nil => cases h
  | cons d rest ihbelow ihrest =>
    rw [plantAll]
    obtain ht | ⟨t, ht, h⟩ := mapM_allInOrder_cons_eq_error.1 h
    · rw [ht]
      rfl
    obtain ⟨id, f₁, hinsert⟩ := Forest.insertChild_of_node? hparent t
    have hadds := Forest.addsChild_of_insertChild hinsert
    simp only [ht, bind, Except.bind, hinsert, plant_eq_plantAll]
    obtain hbelow | ⟨ts, hbelow, hrest⟩ := h
    · rw [ihbelow hbelow d.name hadds.added]
    · -- All below the table is built, and the parent still stands there.
      obtain ⟨f₂, ids, hplant, -, -, -, hkept⟩ :=
        plantAll_represents (Except.exists_of_mapM_eq_ok hbelow) d.name hadds.added
      obtain ⟨m, -, hgrown⟩ := hadds.parentGrows
      rw [hplant]
      exact ihrest hrest name (hkept parent _ (hadds.ne_of_node? hparent) hgrown)

end TableDocument

/-! ## Documents -/

namespace TreeDocument

open TableDocument

/-- **A document is refused for the first table that cannot be read.** -/
theorem plantRoots_of_unread {ds : List TableDocument} {e : StorageError}
    (h : (allInOrder ds).mapM toTable = .error e) (f : Forest) : plantRoots f ds = .error e := by
  induction ds generalizing f with
  | nil => cases h
  | cons d rest ih =>
    rw [plantRoots]
    obtain ht | ⟨t, ht, h⟩ := mapM_allInOrder_cons_eq_error.1 h
    · rw [ht]
      rfl
    simp only [ht, bind, Except.bind, plant_eq_plantAll, show (f.insertRoot t).1 = f.nextId from rfl]
    obtain hbelow | ⟨ts, hbelow, hrest⟩ := h
    · rw [plantAll_of_unread hbelow d.name (Forest.node?_insertRoot_new t)]
    · obtain ⟨f₂, ids, hplant, -⟩ :=
        plantAll_represents (Except.exists_of_mapM_eq_ok hbelow) d.name (Forest.node?_insertRoot_new t)
      rw [hplant]
      exact ih hrest f₂

/-- The version can be read, and all tables are acceptable, those below others too. -/
structure Acceptable (d : TreeDocument) : Prop where
  version : d.version ≤ documentVersion
  tables : ∀ t ∈ allInOrder d.tables, t.Acceptable

instance (d : TreeDocument) : Decidable d.Acceptable :=
  decidable_of_iff (d.version ≤ documentVersion ∧ ∀ t ∈ allInOrder d.tables, t.Acceptable)
    ⟨fun ⟨hversion, htables⟩ => ⟨hversion, htables⟩, fun h => ⟨h.version, h.tables⟩⟩

/-- What is wrong with a document: that its version is too new, or else what is wrong with its first faulty table. -/
inductive Fault (d : TreeDocument) : StorageError → Prop
  | version (newer : documentVersion < d.version) : Fault d (.version d.version.toNat documentVersion.toNat)
  | table {e : StorageError} (version : d.version ≤ documentVersion)
      (first : FirstFault TableDocument.Acceptable TableDocument.Fault (allInOrder d.tables) e) : Fault d e

theorem acceptable_or_fault (d : TreeDocument) : d.Acceptable ∨ ∃ e, d.Fault e := by
  by_cases hnewer : documentVersion < d.version
  · exact .inr ⟨_, .version hnewer⟩
  · have hversion := UInt32.not_lt.1 hnewer
    obtain h | ⟨e, he⟩ := forall_or_firstFault TableDocument.Acceptable TableDocument.Fault
      fun t (_ : t ∈ allInOrder d.tables) => t.acceptable_or_fault
    · exact .inl ⟨hversion, h⟩
    · exact .inr ⟨e, .table hversion he⟩

/-- **A faulty document is refused for its fault.** -/
theorem toForest_of_fault {d : TreeDocument} {e : StorageError} (h : d.Fault e) : d.toForest = .error e := by
  unfold toForest
  cases h with
  | version hnewer => rw [if_pos hnewer]
  | table hversion hfirst =>
    obtain ⟨before, t, after, htables, hbefore, ht⟩ := hfirst
    rw [if_neg (UInt32.not_lt.2 hversion)]
    refine plantRoots_of_unread ?_ .empty
    rw [htables]
    exact Except.mapM_eq_error_of_first (fun t ht => exists_toTable_iff.2 (hbefore t ht)) (toTable_of_fault ht)

theorem exists_toForest_iff {d : TreeDocument} : (∃ f, d.toForest = .ok f) ↔ d.Acceptable := by
  constructor
  · rintro ⟨f, hf⟩
    obtain h | ⟨e, he⟩ := d.acceptable_or_fault
    · exact h
    · cases hf.symm.trans (toForest_of_fault he)
  · intro h
    obtain ⟨g, hg, -⟩ :=
      toForest_represents (UInt32.not_lt.2 h.version) fun t ht => exists_toTable_iff.2 (h.tables t ht)
    exact ⟨g, hg⟩

/-- What is built from a document is linked, and the tables of the document stand in it. -/
theorem represents_of_toForest {d : TreeDocument} {f : Forest} (h : d.toForest = .ok f) :
    f.Linked ∧ f.Represents Builds 0 f.roots d.tables := by
  have hd := exists_toForest_iff.1 ⟨f, h⟩
  obtain ⟨g, hg, hlinked, hbuilds, -⟩ :=
    toForest_represents (UInt32.not_lt.2 hd.version) fun t ht => exists_toTable_iff.2 (hd.tables t ht)
  obtain rfl := Except.ok.inj (h.symm.trans hg)
  exact ⟨hlinked, hbuilds⟩

/-- **Which documents are accepted, and for what the others are refused.** -/
theorem toForest_outcome (d : TreeDocument) :
    ((∃ f, d.toForest = .ok f) ↔ d.Acceptable) ∧ ∀ e, d.toForest = .error e ↔ d.Fault e := by
  refine ⟨exists_toForest_iff, fun e => ⟨fun h => ?_, toForest_of_fault⟩⟩
  obtain hd | ⟨e', he⟩ := d.acceptable_or_fault
  · obtain ⟨f, hf⟩ := exists_toForest_iff.2 hd
    cases h.symm.trans hf
  · obtain rfl := Except.error.inj (h.symm.trans (toForest_of_fault he))
    exact he

/-- A text below the first root stands before the column without a name in the second. -/
example :
    (toForest ⟨1, [
      ⟨"scan", none, none, none, [], [
        ⟨"peaks", none, none, none, [⟨"height", .integer, ⟨"integer"⟩, none, .empty, ["1", "x"]⟩], []⟩]⟩,
      ⟨"notes", none, none, none, [⟨"", .text, ⟨"text"⟩, none, .empty, []⟩], []⟩]⟩).map (·.roots) =
      .error (.cell "peaks" "height" 1 (.unreadable .integer "x")) := by
  decide +kernel

end TreeDocument
end TableForest
