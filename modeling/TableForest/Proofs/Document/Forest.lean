import TableForest.Document.Basic
import TableForest.Proofs.Forest.Walk

/-!
# Stored forests

The stored form of a forest is a tree, the forest itself an arena with handles.  `Forest.Represents` ties the two
together: at some handles of a forest, and below them, stands what some stored tables say.

## The architecture

* **`Forest.Represents`** takes the relation between a table and its stored form as a parameter: forests that are
  stored and forests that are built anew are described by the same predicate.
* **`TreeDocument.ofForest_represents`**: a linked forest has a stored form.
* **`TableDocument.allInOrder`** lists stored tables and all below them, and **`TableDocument.tables_induction`** is
  the induction along them.
* **`TreeDocument.plantRoots_represents`**: what is built from stored tables is represented by them.  New tables
  are newer than all that were there, so what is added later leaves them alone (**`Represents.extend`**).
-/

namespace TableForest

namespace Forest

variable {f g : Forest} {As : Table → TableDocument → Prop}

/-- The tables at some handles, and all below them, stand in a forest as stored tables say.  No handle is older
than `oldest`. -/
inductive Represents (f : Forest) (As : Table → TableDocument → Prop) (oldest : Nat) :
    List TableId → List TableDocument → Prop
  | nil : Represents f As oldest [] []
  | cons {id : TableId} {ids : List TableId} {n : ForestNode} {d : TableDocument}
      {ds : List TableDocument} (new : oldest ≤ id.index) (node : f.node? id = some n) (same : As n.table d)
      (below : Represents f As oldest n.children d.children) (rest : Represents f As oldest ids ds) :
      Represents f As oldest (id :: ids) (d :: ds)

namespace Represents

/-- What is at least as new as `newest` is at least as new as all that is older. -/
theorem mono {oldest newest : Nat} {ids : List TableId} {ds : List TableDocument}
    (h : f.Represents As newest ids ds) (hle : oldest ≤ newest) : f.Represents As oldest ids ds := by
  induction h with
  | nil => exact .nil
  | cons hnew hnode hsame _ _ ihbelow ihrest =>
    exact .cons (Nat.le_trans hle hnew) hnode hsame ihbelow ihrest

/-- **Only the tables that are new count.** -/
theorem extend {oldest : Nat} {ids : List TableId} {ds : List TableDocument} (h : f.Represents As oldest ids ds)
    (hkeep : ∀ id n, oldest ≤ id.index → f.node? id = some n → g.node? id = some n) :
    g.Represents As oldest ids ds := by
  induction h with
  | nil => exact .nil
  | cons hnew hnode hsame _ _ ihbelow ihrest =>
    exact .cons hnew (hkeep _ _ hnew hnode) hsame ihbelow ihrest

/-- What holds of the tables of the forest may be added to the relation. -/
theorem imp {Bs : Table → TableDocument → Prop} {oldest : Nat} {ids : List TableId} {ds : List TableDocument}
    (h : f.Represents As oldest ids ds)
    (himp : ∀ id n d, f.node? id = some n → As n.table d → Bs n.table d) : f.Represents Bs oldest ids ds := by
  induction h with
  | nil => exact .nil
  | cons hnew hnode hsame _ _ ihbelow ihrest =>
    exact .cons hnew hnode (himp _ _ _ hnode hsame) ihbelow ihrest

theorem length_eq {oldest : Nat} {ids : List TableId} {ds : List TableDocument}
    (h : f.Represents As oldest ids ds) : ids.length = ds.length := by
  induction h with
  | nil => rfl
  | cons _ _ _ _ _ _ ihrest => rw [List.length_cons, List.length_cons, ihrest]

theorem of_getElem? {oldest : Nat} {ids : List TableId} {ds : List TableDocument}
    (h : f.Represents As oldest ids ds) {i : Nat} {id : TableId} {d : TableDocument} (hid : ids[i]? = some id)
    (hd : ds[i]? = some d) :
    ∃ n, f.node? id = some n ∧ As n.table d ∧ f.Represents As oldest n.children d.children := by
  induction h generalizing i with
  | nil => cases hid
  | cons _ hnode hsame hbelow _ _ ihrest =>
    cases i with
    | zero =>
      obtain rfl := Option.some.inj hid
      obtain rfl := Option.some.inj hd
      exact ⟨_, hnode, hsame, hbelow⟩
    | succ i => exact ihrest hid hd

theorem document_of_handle {oldest : Nat} {ids : List TableId} {ds : List TableDocument}
    (h : f.Represents As oldest ids ds) {i : Nat} {id : TableId} (hid : ids[i]? = some id) :
    ∃ d, ds[i]? = some d := by
  obtain ⟨hlt, -⟩ := List.getElem?_eq_some_iff.1 hid
  exact ⟨_, List.getElem?_eq_getElem (h.length_eq ▸ hlt)⟩

theorem handle_of_document {oldest : Nat} {ids : List TableId} {ds : List TableDocument}
    (h : f.Represents As oldest ids ds) {i : Nat} {d : TableDocument} (hd : ds[i]? = some d) :
    ∃ id, ids[i]? = some id := by
  obtain ⟨hlt, -⟩ := List.getElem?_eq_some_iff.1 hd
  exact ⟨_, List.getElem?_eq_getElem (h.length_eq ▸ hlt)⟩

end Represents
end Forest

/-! ## Storing a forest -/

/-- A stored table describes a table, whatever its children are. -/
def TableDocument.Describes (t : Table) (d : TableDocument) : Prop :=
  { d with children := [] } = TableDocument.ofTable t

namespace TableDocument

theorem mapM_represents {f : Forest} {store : TableId → Except StorageError TableDocument} {ids : List TableId}
    (h : ∀ id ∈ ids, ∃ n d, f.node? id = some n ∧ store id = .ok d ∧ Describes n.table d ∧
      f.Represents Describes 0 n.children d.children) :
    ∃ ds, ids.mapM store = .ok ds ∧ f.Represents Describes 0 ids ds := by
  induction ids with
  | nil => exact ⟨[], rfl, .nil⟩
  | cons id rest ih =>
    rw [List.forall_mem_cons] at h
    obtain ⟨n, d, hnode, hd, hdescribes, hbelow⟩ := h.1
    obtain ⟨ds, hds, hrest⟩ := ih h.2
    refine ⟨d :: ds, ?_, .cons (Nat.zero_le _) hnode hdescribes hbelow hrest⟩
    rw [List.mapM_cons, hd]
    simp only [bind, Except.bind, hds]
    rfl

/-- A table and all below it have a stored form: children are newer than their parents, so no walk down is
longer than the arena. -/
theorem ofSubtree_represents {f : Forest} (h : f.Linked) (depth : Nat) {id : TableId} {n : ForestNode}
    (hnode : f.node? id = some n) (hdepth : f.nodes.length ≤ id.index + depth) :
    ∃ d, ofSubtree f depth id = .ok d ∧ Describes n.table d ∧
      f.Represents Describes 0 n.children d.children := by
  induction depth generalizing id n with
  | zero => exact absurd (Forest.index_lt_of_node? hnode) (Nat.not_lt.2 hdepth)
  | succ depth ih =>
    have hbelow : ∃ ds, n.children.mapM (ofSubtree f depth) = .ok ds ∧
        f.Represents Describes 0 n.children ds := by
      refine mapM_represents fun c hc => ?_
      -- A child is newer than its parent, so one level less is enough for it.
      have hparent := (h.children (Forest.childrenOf?_of_node? hnode) c).1 hc
      have holder := h.older hparent
      obtain ⟨m, hm⟩ := Forest.exists_node?_of_parentOf? hparent
      obtain ⟨d, hd⟩ := ih hm (by omega)
      exact ⟨m, d, hm, hd⟩
    obtain ⟨ds, hds, hrepresents⟩ := hbelow
    refine ⟨{ ofTable n.table with children := ds }, ?_, rfl, hrepresents⟩
    rw [ofSubtree, Forest.node_eq_ok.2 hnode]
    simp only [bind, Except.bind, hds]
    rfl

end TableDocument

/-- **A linked forest has a stored form, and that describes it.** -/
theorem TreeDocument.ofForest_represents {f : Forest} (h : f.Linked) :
    ∃ ds, TreeDocument.ofForest f = .ok ⟨documentVersion, ds⟩ ∧
      f.Represents TableDocument.Describes 0 f.roots ds := by
  have hroots : ∃ ds, f.roots.mapM (TableDocument.ofSubtree f f.nodes.length) = .ok ds ∧
      f.Represents TableDocument.Describes 0 f.roots ds := by
    refine TableDocument.mapM_represents fun r hr => ?_
    obtain ⟨n, hn⟩ := Forest.exists_node?_of_parentOf? ((h.roots r).1 hr)
    obtain ⟨d, hd⟩ := TableDocument.ofSubtree_represents h f.nodes.length hn (Nat.le_add_left _ _)
    exact ⟨n, d, hn, hd⟩
  obtain ⟨ds, hds, hrepresents⟩ := hroots
  refine ⟨ds, ?_, hrepresents⟩
  unfold ofForest
  rw [hds]
  rfl

/-- A stored form that describes a forest is the only one. -/
theorem Forest.Represents.unique_of_describes {f : Forest} {oldest : Nat} {ids : List TableId}
    {ds es : List TableDocument} (h : f.Represents TableDocument.Describes oldest ids ds)
    (h' : f.Represents TableDocument.Describes oldest ids es) : ds = es := by
  induction h generalizing es with
  | nil =>
    cases h'
    rfl
  | @cons _ _ n d _ _ hnode hsame _ _ ihbelow ihrest =>
    cases h' with
    | @cons _ _ m e _ _ hnode' hsame' hbelow' hrest' =>
      obtain rfl := Option.some.inj (hnode.symm.trans hnode')
      -- all but the children is that of the table, and the children are the same by induction
      have hparts : ({ d with children := [] } : TableDocument) = { e with children := [] } := hsame.trans hsame'.symm
      have hsame : d = e := by
        have hchildren := ihbelow hbelow'
        cases d
        cases e
        simp only [TableDocument.mk.injEq] at hparts hchildren ⊢
        exact ⟨hparts.1, hparts.2.1, hparts.2.2.1, hparts.2.2.2.1, hparts.2.2.2.2.1, hchildren⟩
      rw [hsame, ihrest hrest']

/-! ## The order of a document -/

namespace TableDocument

mutual

/-- A stored table and all below it, each before its children. -/
def inOrder : TableDocument → List TableDocument
  | d@⟨_, _, _, _, _, children⟩ => d :: allInOrder children

/-- Stored tables and all below them, each before its children. -/
def allInOrder : List TableDocument → List TableDocument
  | [] => []
  | d :: rest => d.inOrder ++ allInOrder rest

end

theorem allInOrder_cons (d : TableDocument) (rest : List TableDocument) :
    allInOrder (d :: rest) = d :: (allInOrder d.children ++ allInOrder rest) := by
  cases d
  rfl

/-- What holds of no tables, and of a table and others as soon as it holds of its children and of the others, holds of
all lists of tables. -/
theorem tables_induction {motive : List TableDocument → Prop} (nil : motive [])
    (cons : ∀ d rest, motive d.children → motive rest → motive (d :: rest)) : ∀ ds, motive ds
  | [] => nil
  | d :: rest => cons d rest (tables_induction nil cons d.children) (tables_induction nil cons rest)
  termination_by ds => sizeOf ds
  decreasing_by
    · cases d
      simp only [TableDocument.mk.sizeOf_spec, List.cons.sizeOf_spec]
      omega
    · simp only [List.cons.sizeOf_spec]
      omega

end TableDocument

theorem Forest.Represents.forall_inOrder {f : Forest} {As : Table → TableDocument → Prop} {oldest : Nat}
    {ids : List TableId} {ds : List TableDocument} (h : f.Represents As oldest ids ds)
    {P : TableDocument → Prop} (hP : ∀ t d, As t d → P d) : ∀ d ∈ TableDocument.allInOrder ds, P d := by
  induction h with
  | nil => exact nofun
  | cons _ _ hsame _ _ ihbelow ihrest =>
    rw [TableDocument.allInOrder_cons, List.forall_mem_cons, List.forall_mem_append]
    exact ⟨hP _ _ hsame, ihbelow, ihrest⟩

/-! ## Building a forest anew -/

/-- A table is what a stored table is read as. -/
def TableDocument.Builds (t : Table) (d : TableDocument) : Prop :=
  d.toTable = .ok t

namespace Forest

/-- The handles of the places from `start` on, up to the one before `stop`. -/
def handles (start stop : Nat) : List TableId :=
  (List.range' start (stop - start)).map TableId.mk

theorem mem_handles {start stop : Nat} {id : TableId} :
    id ∈ handles start stop ↔ start ≤ id.index ∧ id.index < stop := by
  cases id
  simp only [handles, List.mem_map, List.mem_range'_1, TableId.mk.injEq, exists_eq_right]
  omega

theorem handles_append {start middle stop : Nat} (h : start ≤ middle) (h' : middle ≤ stop) :
    handles start middle ++ handles middle stop = handles start stop := by
  have hstop : stop - start = (middle - start) + (stop - middle) := by omega
  have hmiddle : start + (middle - start) = middle := by omega
  unfold handles
  rw [← List.map_append, hstop, ← List.range'_append_1, hmiddle]

theorem handles_cons {start stop : Nat} (h : start < stop) :
    handles start stop = ⟨start⟩ :: handles (start + 1) stop := by
  have hstop : stop - start = (stop - (start + 1)) + 1 := by omega
  unfold handles
  rw [hstop, List.range'_succ, List.map_cons]

/-- Stored tables have been added to a forest, under new handles. -/
structure Planted (f g : Forest) (ids : List TableId) (ds : List TableDocument) : Prop where
  represents : g.Represents TableDocument.Builds f.nodes.length ids ds
  length : f.nodes.length ≤ g.nodes.length
  linked : f.Linked → g.Linked
  /-- A walk through the new tables meets them in the order in which they were added. -/
  visits : g.Visits ids (handles f.nodes.length g.nodes.length)

theorem Planted.nil (f : Forest) : f.Planted f [] [] where
  represents := .nil
  length := Nat.le_refl _
  linked := id
  visits := by
    unfold handles
    rw [Nat.sub_self]
    exact .nil

/-- A new table, then what is below it, then the others: each part of the walk goes on where the one before it
ended. -/
theorem Visits.plant {g : Forest} {ids : List TableId} {start middle stop : Nat} {t : Table} {parent : Option TableId}
    {children : List TableId} (hnode : g.node? ⟨start⟩ = some ⟨t, parent, children⟩)
    (hbelow : g.Visits children (handles (start + 1) middle)) (hrest : g.Visits ids (handles middle stop))
    (hmiddle : start + 1 ≤ middle) (hstop : middle ≤ stop) :
    g.Visits (⟨start⟩ :: ids) (handles start stop) := by
  rw [handles_cons (by omega), ← handles_append hmiddle hstop]
  exact .cons hnode (hbelow.append hrest)

end Forest

namespace TableDocument

theorem plant_eq_plantAll (parent : TableId) (f : Forest) (d : TableDocument) :
    d.plant parent f = plantAll d.name parent f d.children := by
  cases d
  rfl

/-- **Stored tables are added under a parent**, if all of them can be read: the handles of the new tables are its
last children, and no other table changes. -/
theorem plantAll_represents {ds : List TableDocument} (hreads : ∀ d ∈ allInOrder ds, ∃ t, d.toTable = .ok t) :
    ∀ (name : String) {parent : TableId} {f : Forest} {n : ForestNode}, f.node? parent = some n →
      ∃ g ids, plantAll name parent f ds = .ok g ∧ f.Planted g ids ds ∧ g.roots = f.roots ∧
        g.node? parent = some { n with children := n.children ++ ids } ∧
        ∀ other m, other ≠ parent → f.node? other = some m → g.node? other = some m := by
  -- First comes what is below the first table, then the rest.
  induction ds using tables_induction with
  | nil =>
    intro name parent f n hparent
    refine ⟨f, [], rfl, .nil f, rfl, ?_, fun _ _ _ hm => hm⟩
    rw [List.append_nil]
    exact hparent
  | cons d rest ihbelow ihrest =>
    intro name parent f n hparent
    rw [allInOrder_cons, List.forall_mem_cons, List.forall_mem_append] at hreads
    obtain ⟨⟨t, ht⟩, hbelows, hrests⟩ := hreads
    obtain ⟨id, f₁, hinsert⟩ := Forest.insertChild_of_node? hparent t
    have hadds := Forest.addsChild_of_insertChild hinsert
    obtain ⟨hnext, hlength₁⟩ := Forest.nextId_of_insertChild hinsert
    have hage := Forest.index_lt_of_node? hparent
    have hne := hadds.ne_of_node? hparent
    have hparent₁ : f₁.node? parent = some { n with children := n.children ++ [id] } := by
      obtain ⟨m, hm, hgrown⟩ := hadds.parentGrows
      obtain rfl := Option.some.inj (hparent.symm.trans hm)
      exact hgrown
    -- What is below the new table comes first; the parent is older and is left alone.
    obtain ⟨f₂, below, hbelow, hplanted₂, hroots₂, hgrown₂, hkept₂⟩ := ihbelow hbelows d.name hadds.added
    obtain ⟨g, ids, hrest, hplanted, hroots, hgrown, hkept⟩ := ihrest hrests name (hkept₂ _ _ hne hparent₁)
    have hnode := hkept _ _ hne.symm hgrown₂
    refine ⟨g, id :: ids, ?_, ⟨.cons ?_ hnode ht ?_ ?_, ?_, ?_, ?_⟩, ?_, ?_, ?_⟩
    · rw [plantAll, ht]
      simp only [bind, Except.bind, hinsert, plant_eq_plantAll, hbelow, hrest]
    · rw [hnext]
      exact Nat.le_refl _
    · rw [List.nil_append]
      refine (hplanted₂.represents.extend fun other m hnew hm => hkept other m ?_ hm).mono (by omega)
      rintro rfl
      omega
    · exact hplanted.represents.mono (Nat.le_trans (by omega) hplanted₂.length)
    · exact Nat.le_trans (by omega) (Nat.le_trans hplanted₂.length hplanted.length)
    · exact fun hlinked => hplanted.linked (hplanted₂.linked (hlinked.insertChild hinsert))
    · subst hnext
      have hlength₂ := hplanted₂.length
      have hvisits := hplanted₂.visits
      rw [hlength₁] at hlength₂ hvisits
      refine .plant hnode (hvisits.extend fun other hnew m hm => hkept other m ?_ hm) hplanted.visits hlength₂
        hplanted.length
      rintro rfl
      have hrange := Forest.mem_handles.1 hnew
      omega
    · rw [hroots, hroots₂, hadds.roots]
    · rw [hgrown, List.append_assoc]
      rfl
    · -- Other tables are older than the new one, and all that was added is new.
      intro other m hother hm
      have hnotnew := hadds.ne_of_node? hm
      refine hkept other m hother (hkept₂ other m hnotnew ?_)
      rw [hadds.others other hother hnotnew]
      exact hm

end TableDocument

namespace TreeDocument

/-- **Stored tables are added as the last roots**, if all of them can be read, and no other table changes. -/
theorem plantRoots_represents {ds : List TableDocument}
    (hreads : ∀ d ∈ TableDocument.allInOrder ds, ∃ t, d.toTable = .ok t) (f : Forest) :
    ∃ g ids, plantRoots f ds = .ok g ∧ f.Planted g ids ds ∧ g.roots = f.roots ++ ids ∧
      ∀ other m, f.node? other = some m → g.node? other = some m := by
  induction ds generalizing f with
  | nil =>
    refine ⟨f, [], rfl, .nil f, ?_, fun _ _ hm => hm⟩
    rw [List.append_nil]
  | cons d rest ihrest =>
    rw [TableDocument.allInOrder_cons, List.forall_mem_cons, List.forall_mem_append] at hreads
    obtain ⟨⟨t, ht⟩, hbelows, hrests⟩ := hreads
    have hlength₁ : (f.insertRoot t).2.nodes.length = f.nodes.length + 1 := List.length_append
    obtain ⟨f₂, below, hplant, hplanted₂, hroots₂, hgrown₂, hkept₂⟩ :=
      -- The new root has no children yet: those come next.
      TableDocument.plantAll_represents hbelows d.name (Forest.node?_insertRoot_new t)
    obtain ⟨g, ids, hrest, hplanted, hroots, hkept⟩ := ihrest hrests f₂
    have hnode₂ := hkept _ _ hgrown₂
    refine ⟨g, f.nextId :: ids, ?_, ⟨.cons (Nat.le_refl _) hnode₂ ht ?_ ?_, ?_, ?_, ?_⟩, ?_, ?_⟩
    · rw [plantRoots, ht]
      simp only [bind, Except.bind, TableDocument.plant_eq_plantAll,
        show (f.insertRoot t).1 = f.nextId from rfl, hplant]
      exact hrest
    · rw [List.nil_append]
      exact (hplanted₂.represents.extend fun other m _ hm => hkept other m hm).mono (by omega)
    · exact hplanted.represents.mono (Nat.le_trans (by omega) hplanted₂.length)
    · exact Nat.le_trans (by omega) (Nat.le_trans hplanted₂.length hplanted.length)
    · exact fun hlinked => hplanted.linked (hplanted₂.linked (hlinked.insertRoot t))
    · have hlength₂ := hplanted₂.length
      have hvisits := hplanted₂.visits
      rw [hlength₁] at hlength₂ hvisits
      exact .plant hnode₂ (hvisits.extend fun other _ m hm => hkept other m hm) hplanted.visits hlength₂
        hplanted.length
    · rw [hroots, hroots₂]
      exact List.append_assoc f.roots [f.nextId] ids
    · intro other m hm
      exact hkept other m (hkept₂ other m (Forest.ne_nextId_of_node? hm) (Forest.node?_insertRoot_of_node? hm t))

/-- **What all of whose tables can be read is built anew**: the forest is linked, and a walk through it meets the
tables in the order of their handles. -/
theorem toForest_represents {d : TreeDocument} (hversion : ¬documentVersion < d.version)
    (hreads : ∀ t ∈ TableDocument.allInOrder d.tables, ∃ u, t.toTable = .ok u) :
    ∃ g, d.toForest = .ok g ∧ g.Linked ∧ g.Represents TableDocument.Builds 0 g.roots d.tables ∧
      g.walkAll = Forest.handles 0 g.nodes.length := by
  obtain ⟨g, ids, hplant, hplanted, hroots, -⟩ := plantRoots_represents hreads .empty
  have htoForest : d.toForest = .ok g := by
    unfold toForest
    rw [if_neg hversion, hplant]
  have hlinked := hplanted.linked Forest.linked_empty
  have hids : g.roots = ids := hroots
  subst hids
  exact ⟨g, htoForest, hlinked, hplanted.represents, (Forest.walkAll_visits hlinked).unique hplanted.visits⟩

end TreeDocument
end TableForest
