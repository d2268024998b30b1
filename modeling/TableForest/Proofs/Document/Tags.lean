import TableForest.Document.File
import TableForest.Proofs.Cell.Tag
import TableForest.Proofs.Document.Acceptance
import TableForest.Proofs.Document.Nesting
import TableForest.Proofs.Document.Rebuild
import TableForest.Proofs.Json.Members

/-!
# Subtypes that come from documents

A column of a document may have any text as its subtype, and nothing looks at it: neither the reader of the JSON value
nor what builds the forest.  Both commute with a change of all subtypes, whatever they are changed to, so a document is
accepted or refused for other reasons, and a subtype that would not be parsed ends up in the forest as it is.

## The architecture

* **`retag`** changes the subtypes of a JSON value, of a document and of a forest.
* **`TreeDocument.ofJson?_retag`**: reading commutes with it, record by record.
* **`TreeDocument.toForest_retag`**: so does building, table by table.
* **`TreeDocument.tags_kept`** puts them together, and **`TreeDocument.odd_tag_accepted`** is a document of which the
  subtype of a table inside another one is no subtype.
-/

namespace TableForest

/-! ## Other subtypes -/

variable (g : Tag → Tag)

def Cell.retag (c : Cell) : Cell :=
  { c with subtype := g c.subtype }

def Column.retag (c : Column) : Column :=
  ⟨{ c.info with subtype := g c.info.subtype }, c.cells.map (Cell.retag g)⟩

def Table.retag (t : Table) : Table :=
  { t with columns := t.columns.map (Column.retag g) }

def ForestNode.retag (n : ForestNode) : ForestNode :=
  { n with table := n.table.retag g }

def Forest.retag (f : Forest) : Forest :=
  { f with nodes := f.nodes.map (Option.map (ForestNode.retag g)) }

def ColumnDocument.retag (c : ColumnDocument) : ColumnDocument :=
  { c with subtype := g c.subtype }

mutual

/-- A stored table and all below it with other subtypes. -/
def TableDocument.retag : TableDocument → TableDocument
  | ⟨name, workingDir, creation, linkPolicy, columns, children⟩ =>
    ⟨name, workingDir, creation, linkPolicy, columns.map (ColumnDocument.retag g), TableDocument.retagAll children⟩

/-- Stored tables and all below them with other subtypes. -/
def TableDocument.retagAll : List TableDocument → List TableDocument
  | [] => []
  | d :: rest => d.retag :: TableDocument.retagAll rest

end

def TreeDocument.retag (d : TreeDocument) : TreeDocument :=
  { d with tables := TableDocument.retagAll g d.tables }

namespace Json

/-- A text for another. -/
def retag : Json → Json
  | .string s => .string (s.map fun s => (g ⟨s⟩).text)
  | j => j

/-- The column of a JSON value with another subtype. -/
def retagColumn : Json → Json :=
  modifyMember ["name", "kind", "subtype", "link", "extra", "cells"] 2 (retag g)

/-- The items of an array, each changed. -/
def modifyItems (change : Json → Json) : Json → Json
  | .array items => .array (items.map change)
  | j => j

/-- The table of a JSON value with other subtypes, given what its children become. -/
def retagTable (children : Json → Json) (j : Json) : Json :=
  let names := ["name", "working_dir", "creation", "link_policy", "columns", "children"]
  modifyMember names 5 children (modifyMember names 4 (modifyItems (retagColumn g)) j)

/-- The tables of a JSON value with other subtypes, as deep as they are read. -/
def retagTables : Nat → Json → Json
  | depth + 2, j => modifyItems (retagTable g (retagTables depth)) j
  | _, j => j

/-- The document of a JSON value with other subtypes. -/
def retagDocument : Json → Json :=
  modifyMember ["version", "tables"] 1 (retagTables g (maxDepth - 1))

end Json

/-! ## Reading -/

variable {g}

namespace Json

theorem asString?_retag (j : Json) : asString? (retag g j) = (asString? j).map fun s => (g ⟨s⟩).text := by
  cases j <;> rfl

/-- What is read of a member that has to be there. -/
theorem required?_map {α β : Type} {decode : Json → Option α} {decode' : Json → Option β} {change : Json → Json}
    {result : α → β} (h : ∀ j, decode' (change j) = (decode j).map result) (member : Option Json) :
    required? decode' (member.map change) = (required? decode member).map result := by
  cases member with
  | none => rfl
  | some j => exact h j

theorem orElse?_map {α : Type} (missing : α) {decode : Json → Option α} {change : Json → Json}
    {result : α → α} (hmissing : result missing = missing) (h : ∀ j, decode (change j) = (decode j).map result)
    (member : Option Json) :
    orElse? missing decode (member.map change) = (orElse? missing decode member).map result := by
  cases member with
  | none => exact congrArg some hmissing.symm
  | some j => exact h j

theorem asArray?_modifyItems {α : Type} {decode : Nat → Json → Option α} {change : Json → Json} {result : α → α}
    (h : ∀ depth j, decode depth (change j) = (decode depth j).map result) (depth : Nat) (j : Json) :
    asArray? decode depth (modifyItems change j) = (asArray? decode depth j).map (List.map result) := by
  cases depth with
  | zero => cases j <;> rfl
  | succ depth =>
    cases j with
    | array items => exact mapM_map_comm (h depth) items
    | _ => rfl

end Json

/-- A column is read with the other subtype. -/
theorem ColumnDocument.ofJson?_retagColumn (depth : Nat) (j : Json) :
    ofJson? depth (j.retagColumn g) = (ofJson? depth j).map (retag g) := by
  unfold ofJson? Json.retagColumn
  rw [Json.asRecord?_modifyMember (by decide) (by decide)]
  cases j.asRecord? ["name", "kind", "subtype", "link", "extra", "cells"] depth with
  | none => rfl
  | some members =>
    match members with
    | [name, kind, subtype, link, extra, cells] =>
      simp only [bind, pure, Option.map_some, Option.bind_some, List.modify_succ_cons, List.modify_zero_cons,
        Json.required?_map Json.asString?_retag, Option.map_bind, Option.bind_map, Function.comp_def]
      rfl
    | [] | [_] | [_, _] | [_, _, _] | [_, _, _, _] | [_, _, _, _, _] | _ :: _ :: _ :: _ :: _ :: _ :: _ :: _ => rfl

namespace TableDocument

theorem retagAll_eq_map (ds : List TableDocument) : retagAll g ds = ds.map (retag g) := by
  induction ds with
  | nil => rfl
  | cons d rest ih => rw [retagAll, List.map_cons, ih]

/-- A table is read with other subtypes, if its children are. -/
theorem ofJson?_retagTable {children? : Json → Option (List TableDocument)} {children : Json → Json}
    (h : ∀ j, children? (children j) = (children? j).map (retagAll g)) (depth : Nat) (j : Json) :
    ofJson? children? depth (j.retagTable g children) = (ofJson? children? depth j).map (retag g) := by
  -- the columns and the children are changed where they are read, and nowhere else
  have hcolumns := Json.orElse?_map [] List.map_nil
    (Json.asArray?_modifyItems (ColumnDocument.ofJson?_retagColumn (g := g)) depth)
  have hchildren := Json.orElse?_map [] rfl h
  unfold ofJson? Json.retagTable
  rw [Json.asRecord?_modifyMember (by decide) (by decide), Json.asRecord?_modifyMember (by decide) (by decide)]
  cases j.asRecord? ["name", "working_dir", "creation", "link_policy", "columns", "children"] (depth + 1) with
  | none => rfl
  | some members =>
    -- an object of the right shape has six members, and any other is not read
    match members with
    | [name, workingDir, creation, linkPolicy, columns, children] =>
      simp only [bind, pure, Option.map_some, Option.bind_some, List.modify_succ_cons, List.modify_zero_cons,
        hcolumns, hchildren, Option.map_bind, Option.bind_map, Function.comp_def]
      rfl
    | [] | [_] | [_, _] | [_, _, _] | [_, _, _, _] | [_, _, _, _, _] | _ :: _ :: _ :: _ :: _ :: _ :: _ :: _ => rfl

/-- **Tables are read with other subtypes**, however deep they stand. -/
theorem allOfJson?_retagTables : ∀ (depth : Nat) (j : Json),
    allOfJson? depth (j.retagTables g depth) = (allOfJson? depth j).map (retagAll g)
  | 0, _ => rfl
  | 1, j => by
    cases j with
    | array items => cases items <;> rfl
    | _ => rfl
  | depth + 2, j => by
    have htable : ∀ (_ : Nat) (j : Json), ofJson? (allOfJson? depth) depth (j.retagTable g (Json.retagTables g depth)) =
        (ofJson? (allOfJson? depth) depth j).map (retag g) :=
      fun _ j => ofJson?_retagTable (allOfJson?_retagTables depth) depth j
    have hall : retagAll g = List.map (retag g) := funext retagAll_eq_map
    rw [hall]
    exact Json.asArray?_modifyItems htable (depth + 2) j

end TableDocument

/-- **A document is read with other subtypes**, whatever they are, if it is read at all. -/
theorem TreeDocument.ofJson?_retag (j : Json) : ofJson? (j.retagDocument g) = (ofJson? j).map (retag g) := by
  have htables := Json.orElse?_map [] rfl
    (TableDocument.allOfJson?_retagTables (g := g) (Json.maxDepth - 1))
  unfold ofJson? Json.retagDocument
  rw [Json.asRecord?_modifyMember (by decide) (by decide)]
  cases j.asRecord? ["version", "tables"] Json.maxDepth with
  | none => rfl
  | some members =>
    match members with
    | [version, tables] =>
      simp only [bind, pure, Option.map_some, Option.bind_some, List.modify_succ_cons, List.modify_zero_cons, htables,
        Option.map_bind, Option.bind_map, Function.comp_def]
      rfl
    | [] | [_] | _ :: _ :: _ :: _ => rfl

/-! ## Building -/

/-- The cells that are read have the kind and the subtype of their column. -/
theorem ColumnDocument.forall_of_readCells {table : String} {c : ColumnDocument} {row : Nat} {texts : List String}
    {cells : List Cell} (h : c.readCells table row texts = .ok cells) :
    ∀ cell ∈ cells, cell.kind = c.kind ∧ cell.subtype = c.subtype := by
  induction texts generalizing row cells with
  | nil =>
    obtain rfl := Except.ok.inj h
    exact nofun
  | cons s rest ih =>
    rw [readCells] at h
    split at h
    · cases h
    · rename_i cell hcell
      obtain ⟨others, hrest, rfl⟩ := Except.map_eq_ok.1 h
      obtain ⟨v, hv, rfl⟩ := Except.map_eq_ok.1 hcell
      exact List.forall_mem_cons.2 ⟨⟨Value.kind_of_parse hv, rfl⟩, ih hrest⟩

theorem ColumnDocument.readCells_retag (table : String) (c : ColumnDocument) (row : Nat) (texts : List String) :
    (c.retag g).readCells table row texts = (c.readCells table row texts).map (List.map (Cell.retag g)) := by
  induction texts generalizing row with
  | nil => rfl
  | cons s rest ih =>
    have hcell : Cell.parse (c.retag g).kind (c.retag g).subtype s =
        (Cell.parse c.kind c.subtype s).map (Cell.retag g) := by
      show (Value.parse c.kind s).map _ = _
      unfold Cell.parse
      cases Value.parse c.kind s <;> rfl
    rw [readCells, readCells, ih, hcell]
    cases Cell.parse c.kind c.subtype s with
    | error e => rfl
    | ok cell => cases c.readCells table (row + 1) rest <;> rfl

theorem Table.push_retag (t : Table) (c : Column) :
    (t.retag g).push (c.retag g) = ((t.push c).1, (t.push c).2.retag g) := by
  unfold push retag
  rw [List.length_map, List.map_append]
  rfl

/-- Cells of the kind and the subtype of their column are added with the other subtype. -/
theorem Table.addColumnWithCells_retag (t : Table) (info : ColumnInfo) {cells : List Cell}
    (h : ∀ cell ∈ cells, cell.kind = info.kind ∧ cell.subtype = info.subtype) :
    (t.retag g).addColumnWithCells { info with subtype := g info.subtype } (cells.map (Cell.retag g)) =
      ((t.addColumnWithCells info cells).1, (t.addColumnWithCells info cells).2.retag g) := by
  have hcells : checkCells info 0 cells = .ok () := checkCells_eq_ok.2 h
  -- cells with the new tag fit the new column, since both tags are changed in the same way
  have hcells' : checkCells { info with subtype := g info.subtype } 0 (cells.map (Cell.retag g)) = .ok () := by
    refine checkCells_eq_ok.2 (List.forall_mem_map.2 fun cell hcell => ?_)
    exact ⟨(h cell hcell).1, congrArg g (h cell hcell).2⟩
  have hempty : (t.retag g).columns.isEmpty = t.columns.isEmpty := List.isEmpty_map
  unfold addColumnWithCells requiring
  have hrows : (t.retag g).rows = t.rows := rfl
  simp only [hcells, hcells', hempty, hrows, List.length_map]
  cases checkName info.name with
  | error e => rfl
  | ok named =>
    dsimp only
    by_cases hcount : (!t.columns.isEmpty && decide (cells.length ≠ t.rows)) = true
    · rw [if_pos hcount, if_pos hcount]
    · rw [if_neg hcount, if_neg hcount]
      by_cases hfirst : t.columns.isEmpty = true
      · rw [if_pos hfirst, if_pos hfirst]
        exact push_retag { t with rows := cells.length } ⟨info, cells⟩
      · rw [if_neg hfirst, if_neg hfirst]
        exact push_retag t ⟨info, cells⟩

/-- **Columns are added with other subtypes.** -/
theorem TableDocument.addColumns_retag (t : Table) (columns : List ColumnDocument) :
    addColumns (t.retag g) (columns.map (ColumnDocument.retag g)) = (addColumns t columns).map (Table.retag g) := by
  induction columns generalizing t with
  | nil => rfl
  | cons c rest ih =>
    -- the cells are read with the tag of their column, so it is on each of them
    have hcells : (c.retag g).readCells (t.retag g).name 0 (c.retag g).cells =
        (c.readCells t.name 0 c.cells).map (List.map (Cell.retag g)) :=
      ColumnDocument.readCells_retag t.name c 0 c.cells
    rw [List.map_cons, addColumns, addColumns, hcells]
    cases hread : c.readCells t.name 0 c.cells with
    | error e => rfl
    | ok cells =>
      have hadded : (t.retag g).addColumnWithCells (c.retag g).info (cells.map (Cell.retag g)) =
          ((t.addColumnWithCells c.info cells).1, (t.addColumnWithCells c.info cells).2.retag g) :=
        t.addColumnWithCells_retag c.info (ColumnDocument.forall_of_readCells hread)
      simp only [bind, Except.bind, Except.map, hadded]
      generalize t.addColumnWithCells c.info cells = answer
      obtain ⟨result, t'⟩ := answer
      cases result with
      | error e => rfl
      | ok index => exact ih t'

theorem TableDocument.toTable_retag (d : TableDocument) : (d.retag g).toTable = d.toTable.map (Table.retag g) := by
  obtain ⟨name, workingDir, creation, linkPolicy, columns, children⟩ := d
  exact addColumns_retag ⟨name, [], 0, workingDir, creation, linkPolicy.getD .standard⟩ columns

namespace Forest

theorem node?_retag (f : Forest) (id : TableId) : (f.retag g).node? id = (f.node? id).map (ForestNode.retag g) := by
  unfold node? retag
  rw [List.getElem?_map]
  cases f.nodes[id.index]? <;> rfl

theorem node_retag (f : Forest) (id : TableId) : (f.retag g).node id = (f.node id).map (ForestNode.retag g) := by
  unfold node
  rw [node?_retag]
  cases f.node? id <;> rfl

theorem modify_retag (f : Forest) (id : TableId) {change : ForestNode → ForestNode}
    (h : ∀ n, change (n.retag g) = (change n).retag g) :
    (f.retag g).modify id change = (f.modify id change).retag g := by
  unfold modify retag
  refine congrArg (Forest.mk · f.roots) (List.ext_getElem? fun i => ?_)
  rw [List.getElem?_modify, List.getElem?_map, List.getElem?_map, List.getElem?_modify]
  cases f.nodes[i]? with
  | none => rfl
  | some place =>
    refine congrArg some ?_
    dsimp only
    split
    · cases place with
      | none => rfl
      | some n => exact congrArg some (h n)
    · rfl

theorem nextId_retag (f : Forest) : (f.retag g).nextId = f.nextId :=
  congrArg TableId.mk (List.length_map _)

theorem allocate_retag (f : Forest) (t : Table) (parent : Option TableId) :
    (f.retag g).allocate (t.retag g) parent = (f.allocate t parent).retag g := by
  unfold allocate retag
  rw [List.map_append]
  rfl

theorem insertRoot_retag (f : Forest) (t : Table) :
    (f.retag g).insertRoot (t.retag g) = ((f.insertRoot t).1, (f.insertRoot t).2.retag g) := by
  unfold insertRoot
  rw [nextId_retag, allocate_retag]
  rfl

theorem insertChild_retag (f : Forest) (parent : TableId) (t : Table) :
    (f.retag g).insertChild parent (t.retag g) = (f.insertChild parent t).map fun p => (p.1, p.2.retag g) := by
  unfold insertChild
  rw [node_retag, nextId_retag, allocate_retag]
  cases f.node parent with
  | error e => rfl
  | ok n =>
    refine congrArg (fun grown => Except.ok (f.nextId, grown)) ?_
    exact modify_retag (f.allocate t (some parent)) parent fun n => rfl

end Forest

theorem TableDocument.retag_eq (d : TableDocument) :
    d.retag g = { d with columns := d.columns.map (ColumnDocument.retag g), children := retagAll g d.children } := by
  cases d
  rfl

/-- **Stored tables are added under a parent with other subtypes.** -/
theorem TableDocument.plantAll_retag (ds : List TableDocument) :
    ∀ (name : String) (parent : TableId) (f : Forest),
      plantAll name parent (f.retag g) (retagAll g ds) = (plantAll name parent f ds).map (Forest.retag g) := by
  induction ds using tables_induction with
  | nil => exact fun name parent f => rfl
  | cons d rest ihbelow ihrest =>
    intro name parent f
    -- what is below the table is planted in the same order
    have hplant : ∀ (id : TableId) (f : Forest),
        (d.retag g).plant id (f.retag g) = (d.plant id f).map (Forest.retag g) := by
      intro id f
      rw [plant_eq_plantAll, plant_eq_plantAll, retag_eq]
      exact ihbelow d.name id f
    rw [retagAll, plantAll, plantAll, toTable_retag]
    cases d.toTable with
    | error e => rfl
    | ok t =>
      simp only [bind, Except.bind, Except.map, Forest.insertChild_retag]
      cases f.insertChild parent t with
      | error e => rfl
      | ok added =>
        simp only [hplant]
        cases d.plant added.1 added.2 with
        | error e => rfl
        | ok f => exact ihrest name parent f

theorem TableDocument.plant_retag (d : TableDocument) (id : TableId) (f : Forest) :
    (d.retag g).plant id (f.retag g) = (d.plant id f).map (Forest.retag g) := by
  rw [plant_eq_plantAll, plant_eq_plantAll, retag_eq]
  exact plantAll_retag d.children d.name id f

theorem TreeDocument.plantRoots_retag (ds : List TableDocument) (f : Forest) :
    plantRoots (f.retag g) (TableDocument.retagAll g ds) = (plantRoots f ds).map (Forest.retag g) := by
  induction ds generalizing f with
  | nil => rfl
  | cons d rest ih =>
    rw [TableDocument.retagAll, plantRoots, plantRoots, TableDocument.toTable_retag]
    cases d.toTable with
    | error e => rfl
    | ok t =>
      simp only [bind, Except.bind, Except.map, Forest.insertRoot_retag, TableDocument.plant_retag]
      cases d.plant (f.insertRoot t).1 (f.insertRoot t).2 with
      | error e => rfl
      | ok f => exact ih f

/-- **A forest is built with other subtypes**, whatever they are, and what is refused is refused for the same reason. -/
theorem TreeDocument.toForest_retag (d : TreeDocument) : (d.retag g).toForest = d.toForest.map (Forest.retag g) := by
  have hplanted : plantRoots .empty (d.retag g).tables = (plantRoots .empty d.tables).map (Forest.retag g) :=
    plantRoots_retag d.tables .empty
  have hversion : (d.retag g).version = d.version := rfl
  unfold toForest
  rw [hplanted, hversion]
  split
  · rfl
  · rfl

/-! ## Subtypes of a forest -/

/-- The columns of a table have the subtypes that are stored, and each cell has that of its column. -/
structure TableDocument.SameTags (t : Table) (d : TableDocument) : Prop where
  columns : t.columns.map (fun c => c.info.subtype) = d.columns.map ColumnDocument.subtype
  cells : ∀ c ∈ t.columns, ∀ cell ∈ c.cells, cell.subtype = c.info.subtype

theorem TableDocument.sameTags_of_builds {t : Table} {d : TableDocument} (h : Builds t d) : SameTags t d := by
  obtain ⟨columns, hbuilt, hread⟩ := toTable_of_acceptable (exists_toTable_iff.1 ⟨t, h⟩)
  refine ⟨?_, fun c hc => ((shape_of_toTable h).fits c hc).subtypes⟩
  obtain rfl := Except.ok.inj (hbuilt.symm.trans h)
  rw [← List.forall₂_eq_eq_eq, List.forall₂_map_left_iff, List.forall₂_map_right_iff]
  refine (hread.imp fun c column hcolumn => ?_).flip
  show column.info.subtype = c.subtype
  rw [hcolumn.info, ColumnDocument.info]

/-- What holds of all subtypes that are stored holds of all that the table has. -/
theorem TableDocument.SameTags.forall_iff {t : Table} {d : TableDocument} (h : SameTags t d) {P : Tag → Prop} :
    (∀ c ∈ t.columns, P c.info.subtype) ↔ ∀ c ∈ d.columns, P c.subtype := by
  have hmap := h.columns
  rw [← List.forall_mem_map (f := fun c : Column => c.info.subtype), hmap, List.forall_mem_map]

namespace TreeDocument

open TableDocument

/-- **Subtypes are taken from documents as they are.**  Those of the forest are those of the document, so they are
parsed as themselves exactly if those of the document are; and the document would be read and built with any others
in their places. -/
theorem tags_kept {bs : Bytes} {e : DocumentFile} {f : Forest} (hread : DocumentFile.ofBytes bs = .ok e)
    (hbuilt : e.document.toForest = .ok f) :
    f.Represents SameTags 0 f.roots e.document.tables ∧
      ((∀ id n, f.node? id = some n → ∀ c ∈ n.table.columns, c.info.subtype.ReadsAsItself) ↔
        ∀ path d, follow? e.document.tables path = some d → ∀ c ∈ d.columns, c.subtype.ReadsAsItself) ∧
      ∃ j, Json.read? bs = some j ∧ ∀ g, ofJson? (j.retagDocument g) = some (e.document.retag g) ∧
        (e.document.retag g).toForest = .ok (f.retag g) := by
  obtain ⟨hlinked, hbuilds⟩ := represents_of_toForest hbuilt
  have hsame : f.Represents SameTags 0 f.roots e.document.tables :=
    hbuilds.imp fun _ _ _ _ hbuilt => sameTags_of_builds hbuilt
  -- the tags are compared table by table, in both directions
  refine ⟨hsame, ⟨fun h path d hd => ?_, fun h id n hn => ?_⟩, ?_⟩
  · obtain ⟨id, n, -, hn, htags, -⟩ := hsame.follow hlinked (Forest.depth_of_mem_roots hlinked) hd
    exact htags.forall_iff.1 (h id n hn)
  · obtain ⟨path, d, -, hd, htags, -⟩ := hsame.exists_follow hlinked hn
    exact htags.forall_iff.2 (h path d hd)
  -- the bytes are read first, and the tags are changed in what has been read
  · unfold DocumentFile.ofBytes at hread
    cases hdocument : read? bs with
    | none =>
      rw [hdocument] at hread
      cases hread
    | some d =>
      rw [hdocument] at hread
      obtain rfl := Except.ok.inj hread
      obtain ⟨j, hj, hd⟩ := Option.bind_eq_some_iff.1 hdocument
      refine ⟨j, hj, fun g => ⟨?_, ?_⟩⟩
      · rw [ofJson?_retag, hd]
        rfl
      · rw [toForest_retag, hbuilt]
        rfl

/-- A table with a column of some subtype. -/
def labelledTable (tag : Tag) : TableDocument :=
  ⟨"peaks", none, none, none, [⟨"height", .integer, tag, none, .empty, ["1"]⟩], []⟩

/-- A table with a column of some subtype, inside another table. -/
def labelled (tag : Tag) : TreeDocument :=
  ⟨1, [⟨"scan", none, none, none, [], [labelledTable tag]⟩]⟩

theorem ofBytes_labelled (tag : Tag) (style : Json.Style) :
    DocumentFile.ofBytes ((labelled tag).bytes style) = .ok ⟨labelled tag, none⟩ := by
  -- Neither table has a note of its creation, and neither has a path.
  have heverywhere : ∀ {P : TableDocument → Prop}, (∀ d, d.creation = none → d.paths = [] → P d) →
      Everywhere P (labelled tag).tables := by
    intro P h
    have hpeaks : Everywhere P [labelledTable tag] :=
      everywhere_iff.2 (List.forall_mem_singleton.2 ⟨h _ rfl rfl, everywhere_iff.2 fun _ hd => nomatch hd⟩)
    exact everywhere_iff.2 (List.forall_mem_singleton.2 ⟨h _ rfl rfl, hpeaks⟩)
  have hregular : Regular (labelled tag).tables := by
    refine heverywhere fun d hcreation _ c hc => ?_
    rw [hcreation] at hc
    cases hc
  have hpaths : HasTextPaths (labelled tag).tables := by
    refine heverywhere fun d _ hpaths p hp => ?_
    rw [hpaths] at hp
    cases hp
  have hflat : Shallow 62 [labelledTable tag] :=
    shallow_succ.2 (List.forall_mem_singleton.2 ⟨Nat.le_of_ble_eq_true rfl, shallow_nil 61⟩)
  have hshallow : Shallow 63 (labelled tag).tables :=
    shallow_succ.2 (List.forall_mem_singleton.2 ⟨Nat.le_of_ble_eq_true rfl, hflat⟩)
  unfold DocumentFile.ofBytes
  rw [read?_bytes style hregular hpaths hshallow]

theorem tags_of_labelled :
    ∃ f j, DocumentFile.ofBytes ((labelled ⟨"integer"⟩).bytes .compact) = .ok ⟨labelled ⟨"integer"⟩, none⟩ ∧
      (labelled ⟨"integer"⟩).toForest = .ok f ∧ Json.read? ((labelled ⟨"integer"⟩).bytes .compact) = some j ∧
      ofJson? (j.retagDocument fun _ => ⟨"not a tag"⟩) = some (labelled ⟨"not a tag"⟩) ∧
      (labelled ⟨"not a tag"⟩).toForest = .ok (f.retag fun _ => ⟨"not a tag"⟩) := by
  have hread := ofBytes_labelled ⟨"integer"⟩ .compact
  obtain ⟨f, hf⟩ := exists_toForest_iff.2 (show (labelled ⟨"integer"⟩).Acceptable by decide +kernel)
  obtain ⟨-, -, j, hj, hany⟩ := tags_kept hread hf
  obtain ⟨hother, hbuilt⟩ := hany fun _ => ⟨"not a tag"⟩
  exact ⟨f, j, hread, hf, hj, hother, hbuilt⟩

/-- **A text that is no subtype becomes the subtype of a column**, in a table inside another one. -/
theorem odd_tag_accepted :
    ∃ e f id n c, DocumentFile.ofBytes ((labelled ⟨"not a tag"⟩).bytes .compact) = .ok e ∧
      e.document.toForest = .ok f ∧ f.node? id = some n ∧ c ∈ n.table.columns ∧ ¬c.info.subtype.ReadsAsItself := by
  -- a blank is no part of a name
  have hodd : ¬(⟨"not a tag"⟩ : Tag).ReadsAsItself := mt Tag.readsAsItself_iff.1 (by decide)
  have hread := ofBytes_labelled ⟨"not a tag"⟩ .compact
  have hbuilt : (labelled ⟨"not a tag"⟩).toForest.map (fun f => (f.node? ⟨1⟩).map fun n => n.table.infos) =
      .ok (some [⟨"height", .integer, ⟨"not a tag"⟩, .none, .empty⟩]) := by
    decide +kernel
  cases hf : (labelled ⟨"not a tag"⟩).toForest with
  | error e =>
    rw [hf] at hbuilt
    cases hbuilt
  | ok f =>
    rw [hf] at hbuilt
    -- the column of the table is known by its description
    obtain ⟨n, hn, hinfos⟩ := Option.map_eq_some_iff.1 (Except.ok.inj hbuilt)
    have hmem : (⟨"height", .integer, ⟨"not a tag"⟩, .none, .empty⟩ : ColumnInfo) ∈ n.table.infos := by
      rw [hinfos]
      exact List.mem_cons_self
    obtain ⟨c, hc, hinfo⟩ := List.mem_map.1 hmem
    refine ⟨_, f, ⟨1⟩, n, c, hread, hf, hn, hc, ?_⟩
    rw [hinfo]
    exact hodd

end TreeDocument

end TableForest
