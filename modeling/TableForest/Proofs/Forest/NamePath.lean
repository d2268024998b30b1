import Mathlib.Data.List.Induction
import TableForest.Proofs.Forest.Coherent

/-!
# Paths of names

The path of a table is made on the way up: the names of the table and of all tables above it, joined by slashes.  A
path is looked up on the way down, and at each step the first child of the name is taken, whatever is below the
others.

## The architecture

* **`Forest.Way`** are the names on the way from a root to a table.  A path joins them (**`exists_way`**), and if
  the names are plain the parts of the path are the names again (**`segments_intercalate`**).
* **`Forest.Leading`** says of a table that no table on the way to it stands behind one of the same name.
* **`findNames?_eq_some`** is what looking up does: names lead to the leading table to which they are the way.
* **`findPath?_pathOf_iff`** and **`findPath?_both_ways`** are the results for every forest that can be built.
-/

namespace TableForest.Forest

variable {f : Forest}

/-! ## Names on the way -/

def nameOf? (f : Forest) (id : TableId) : Option String :=
  (f.tableOf? id).map Table.name

/-- The names on the way from the root above a table to the table itself. -/
inductive Way (f : Forest) : TableId → List String → Prop
  | root {id : TableId} {name : String} (top : f.parentOf? id = some none) (named : f.nameOf? id = some name) :
      Way f id [name]
  | child {id p : TableId} {names : List String} {name : String} (above : Way f p names)
      (parent : f.parentOf? id = some (some p)) (named : f.nameOf? id = some name) : Way f id (names ++ [name])

theorem Way.ne_nil {id : TableId} {names : List String} (h : f.Way id names) : names ≠ [] := by
  cases h with
  | root => exact List.cons_ne_nil _ _
  | child => exact List.append_ne_nil_of_right_ne_nil _ (List.cons_ne_nil _ _)

/-- **There is one way to a table.** -/
theorem Way.unique {id : TableId} {names others : List String} (h : f.Way id names) (h' : f.Way id others) :
    names = others := by
  induction h generalizing others with
  | root top named =>
    cases h' with
    | root _ named' => rw [Option.some.inj (named.symm.trans named')]
    | child _ parent' _ => exact nomatch top.symm.trans parent'
  | child _ parent named ih =>
    cases h' with
    | root top' _ => exact nomatch parent.symm.trans top'
    | child above' parent' named' =>
      obtain rfl := Option.some.inj (Option.some.inj (parent.symm.trans parent'))
      rw [ih above', Option.some.inj (named.symm.trans named')]

/-- The tables above a table, and the table itself, have the names on the way. -/
theorem Above.way {id : TableId} {ids : List TableId} (h : f.Above id ids) {names : List String}
    (hnames : names.map some = (id :: ids).reverse.map f.nameOf?) : f.Way id names := by
  induction h generalizing names with
  | @root id top =>
    rw [List.reverse_singleton, List.map_singleton, List.map_eq_singleton_iff] at hnames
    obtain ⟨name, rfl, hname⟩ := hnames
    exact .root top hname.symm
  | @child id p ids parent _ ih =>
    rw [List.reverse_cons, List.map_append, List.map_singleton, List.map_eq_append_iff] at hnames
    obtain ⟨above, last, rfl, habove, hlast⟩ := hnames
    obtain ⟨name, rfl, hname⟩ := List.map_eq_singleton_iff.1 hlast
    exact .child (ih habove) parent hname.symm

/-- **The path of a table joins the names on the way to it.** -/
theorem exists_way (h : f.Linked) {id : TableId} {n : ForestNode} (hnode : f.node? id = some n) :
    ∃ names, f.Way id names ∧ f.pathOf id = .ok ("/".intercalate names) := by
  obtain ⟨ids, habove, hancestors, -⟩ := ancestors_eq_ok h hnode
  obtain ⟨names, hnames, hpath⟩ := pathOf_eq_ok habove hancestors
  exact ⟨names, habove.way hnames, hpath⟩

theorem Way.node? {id : TableId} {names : List String} (h : f.Way id names) : ∃ n, f.node? id = some n := by
  cases h with
  | root top => exact exists_node?_of_parentOf? top
  | child _ parent => exact exists_node?_of_parentOf? parent

theorem pathOf_of_way (h : f.Linked) {id : TableId} {names : List String} (hway : f.Way id names) :
    f.pathOf id = .ok ("/".intercalate names) := by
  obtain ⟨n, hn⟩ := hway.node?
  obtain ⟨others, hothers, hpath⟩ := exists_way h hn
  rw [hpath, hothers.unique hway]

/-! ## Parts of a path -/

/-- The parts of a path between slashes, of which empty ones do not count. -/
def segments (path : String) : List String :=
  ((path.toList.splitOn '/').filter (· ≠ [])).map String.ofList

/-- Names that are neither empty nor have a slash in them are the parts of the path that joins them. -/
theorem segments_intercalate {names : List String} (hne : names ≠ [])
    (hplain : ∀ name ∈ names, name ≠ "" ∧ '/' ∉ name.toList) : segments ("/".intercalate names) = names := by
  have hsplit : ("/".intercalate names).toList.splitOn '/' = names.map String.toList := by
    rw [String.toList_intercalate]
    refine List.splitOn_intercalate '/' ?_ (by simpa using hne)
    rw [List.forall_mem_map]
    exact fun name hname => (hplain name hname).2
  have hkept : (names.map String.toList).filter (· ≠ []) = names.map String.toList := by
    rw [List.filter_eq_self, List.forall_mem_map]
    intro name hname
    simpa using (hplain name hname).1
  unfold segments
  rw [hsplit, hkept, List.map_map]
  simp [Function.comp_def]

/-! ## The first of a name -/

/-- Among the tables beside it, no table of its name stands before a table. -/
def First (f : Forest) (id : TableId) : Prop :=
  ∃ q before after, f.below? q = some (before ++ id :: after) ∧ ∀ s ∈ before, f.nameOf? s ≠ f.nameOf? id

/-- Neither a table nor any table above it stands behind one of its own name. -/
def Leading (f : Forest) (id : TableId) : Prop :=
  ∀ top, f.IsBelow top id → f.First top

theorem leading_of_root {id : TableId} (h : f.parentOf? id = some none) : f.Leading id ↔ f.First id := by
  refine ⟨fun hleading => hleading id (.refl f id), fun hfirst top hbelow => ?_⟩
  rcases Relation.ReflTransGen.cases_tail hbelow with heq | ⟨p, -, hparent⟩
  · exact heq ▸ hfirst
  · exact nomatch h.symm.trans hparent

theorem leading_of_child {id p : TableId} (h : f.parentOf? id = some (some p)) :
    f.Leading id ↔ f.First id ∧ f.Leading p := by
  constructor
  · intro hleading
    refine ⟨hleading id (.refl f id), fun top hbelow => hleading top ?_⟩
    exact Relation.ReflTransGen.tail hbelow h
  · rintro ⟨hfirst, hleading⟩ top hbelow
    rcases Relation.ReflTransGen.cases_tail hbelow with heq | ⟨p', hbelow', hparent⟩
    · exact heq ▸ hfirst
    · obtain rfl := Option.some.inj (Option.some.inj (h.symm.trans hparent))
      exact hleading top hbelow'

/-! ## Looking up -/

/-- The table of a name below a table, or at the top. -/
def findBelow? (f : Forest) (q : Option TableId) (name : String) : Option TableId :=
  (f.below? q).bind (f.findNamed? · name)

/-- The table that names lead to from a root on. -/
def findNames? (f : Forest) : List String → Option TableId
  | [] => none
  | first :: rest => do f.descend? (← f.findNamed? f.roots first) rest

theorem findPath?_eq (f : Forest) (path : String) : f.findPath? path = f.findNames? (segments path) := by
  unfold findPath? findNames? segments
  rfl

theorem descend?_append (f : Forest) (id : TableId) (names more : List String) :
    f.descend? id (names ++ more) = (f.descend? id names).bind (f.descend? · more) := by
  induction names generalizing id with
  | nil => rfl
  | cons name rest ih => simp [descend?, ih, Option.bind_assoc]

theorem descend?_singleton (f : Forest) (id : TableId) (name : String) :
    f.descend? id [name] = f.findBelow? (some id) name := by
  unfold findBelow? below? childrenOf?
  cases hn : f.node? id <;> simp [descend?, hn]

theorem findNames?_singleton (f : Forest) (name : String) : f.findNames? [name] = f.findBelow? none name := by
  simp [findNames?, descend?, findBelow?, below?]

/-- The last of some names is looked up below the table that the others lead to. -/
theorem findNames?_append_singleton (f : Forest) {names : List String} (hne : names ≠ []) (name : String) :
    f.findNames? (names ++ [name]) = (f.findNames? names).bind fun p => f.findBelow? (some p) name := by
  cases names with
  | nil => exact absurd rfl hne
  | cons first rest => simp [findNames?, descend?_append, descend?_singleton, Option.bind_assoc]

theorem findNamed?_eq_find? (f : Forest) (ids : List TableId) (name : String) :
    f.findNamed? ids name = ids.find? fun id => f.nameOf? id = some name := by
  unfold findNamed?
  congr 1
  funext id
  cases hn : f.node? id <;> simp [nameOf?, tableOf?, hn]

/-- **Among siblings the first of a name is found.** -/
theorem findBelow?_eq_some (h : f.Linked) {q : Option TableId} {name : String} {id : TableId} :
    f.findBelow? q name = some id ↔ f.parentOf? id = some q ∧ f.nameOf? id = some name ∧ f.First id := by
  unfold findBelow?
  simp only [Option.bind_eq_some_iff, findNamed?_eq_find?, List.find?_eq_some_iff_append, decide_eq_true_eq,
    Bool.not_eq_true', decide_eq_false_iff_not]
  constructor
  · rintro ⟨ids, hids, hname, before, after, rfl, hbefore⟩
    have hmem : id ∈ before ++ id :: after := List.mem_append_right _ List.mem_cons_self
    refine ⟨(h.members hids id).1 hmem, hname, q, before, after, hids, ?_⟩
    rw [hname]
    exact hbefore
  · rintro ⟨hparent, hname, q', before, after, hids, hbefore⟩
    -- A table stands below its parent only.
    have hmem : id ∈ before ++ id :: after := List.mem_append_right _ List.mem_cons_self
    obtain rfl : q' = q := below?_unique h hparent hids hmem
    rw [hname] at hbefore
    exact ⟨_, hids, hname, before, after, rfl, hbefore⟩

/-- **Names lead to the leading table to which they are the way**, and to no other.  One name more is one step more
down, and one step more on the way. -/
theorem findNames?_eq_some (h : f.Linked) {names : List String} {id : TableId} :
    f.findNames? names = some id ↔ f.Way id names ∧ f.Leading id := by
  constructor
  · intro hfind
    -- the induction takes the last name off, since the search goes on from where the names before it lead
    induction names using List.reverseRecOn generalizing id with
    | nil => cases hfind
    | append_singleton names name ih =>
      by_cases hnames : names = []
      · rw [hnames, List.nil_append, findNames?_singleton, findBelow?_eq_some h] at hfind
        obtain ⟨htop, hname, hfirst⟩ := hfind
        rw [hnames]
        exact ⟨.root htop hname, (leading_of_root htop).2 hfirst⟩
      · rw [findNames?_append_singleton f hnames, Option.bind_eq_some_iff] at hfind
        obtain ⟨p, hp, hfind⟩ := hfind
        obtain ⟨hparent, hname, hfirst⟩ := (findBelow?_eq_some h).1 hfind
        obtain ⟨hway, hleading⟩ := ih hp
        exact ⟨.child hway hparent hname, (leading_of_child hparent).2 ⟨hfirst, hleading⟩⟩
  · rintro ⟨hway, hleading⟩
    -- a way is as long as its names, and each of its tables comes first among those of its name
    induction hway with
    | root top named =>
      rw [findNames?_singleton]
      exact (findBelow?_eq_some h).2 ⟨top, named, (leading_of_root top).1 hleading⟩
    | child above parent named ih =>
      obtain ⟨hfirst, hup⟩ := (leading_of_child parent).1 hleading
      rw [findNames?_append_singleton f above.ne_nil, ih hup]
      exact (findBelow?_eq_some h).2 ⟨parent, named, hfirst⟩

/-- **What is found at a path has the parts of the path on its way.** -/
theorem way_of_findPath? (h : f.Linked) {path : String} {id : TableId} (hfind : f.findPath? path = some id) :
    f.Way id (segments path) := by
  rw [findPath?_eq] at hfind
  exact ((findNames?_eq_some h).1 hfind).1

/-! ## Paths of tables -/

/-- No name is empty, and none has a slash in it. -/
def PlainNames (f : Forest) : Prop :=
  ∀ id n, f.node? id = some n → n.table.name ≠ "" ∧ '/' ∉ n.table.name.toList

/-- No two tables beside each other have one name. -/
def DistinctNames (f : Forest) : Prop :=
  ∀ q ids, f.below? q = some ids → ids.Pairwise fun a b => f.nameOf? a ≠ f.nameOf? b

instance (f : Forest) : Decidable f.PlainNames :=
  decidable_of_iff (∀ i < f.nodes.length, ∀ n ∈ f.node? ⟨i⟩, n.table.name ≠ "" ∧ '/' ∉ n.table.name.toList)
    ⟨fun h id n hn => h id.index (index_lt_of_node? hn) n hn, fun h i _ n hn => h ⟨i⟩ n hn⟩

instance (f : Forest) : Decidable f.DistinctNames :=
  decidable_of_iff ((f.roots.Pairwise fun a b => f.nameOf? a ≠ f.nameOf? b) ∧
      ∀ i < f.nodes.length, ∀ n ∈ f.node? ⟨i⟩, n.children.Pairwise fun a b => f.nameOf? a ≠ f.nameOf? b)
    ⟨fun h q ids hids => by
      cases q with
      | none => exact Option.some.inj hids ▸ h.1
      | some p =>
        obtain ⟨n, hn, rfl⟩ := Option.map_eq_some_iff.1 hids
        exact h.2 p.index (index_lt_of_node? hn) n hn,
      fun h => ⟨h none f.roots rfl, fun i _ n hn => h (some ⟨i⟩) n.children (childrenOf?_of_node? hn)⟩⟩

theorem Way.plain (hplain : f.PlainNames) {id : TableId} {names : List String} (h : f.Way id names) :
    ∀ name ∈ names, name ≠ "" ∧ '/' ∉ name.toList := by
  have hname : ∀ {id : TableId} {name : String}, f.nameOf? id = some name → name ≠ "" ∧ '/' ∉ name.toList := by
    intro id name hnamed
    obtain ⟨t, ht, rfl⟩ := Option.map_eq_some_iff.1 hnamed
    obtain ⟨n, hn, rfl⟩ := Option.map_eq_some_iff.1 ht
    exact hplain id n hn
  induction h with
  | root _ named => simpa using hname named
  | child _ _ named ih =>
    intro name hmem
    rcases List.mem_append.1 hmem with hmem | hmem
    · exact ih name hmem
    · exact List.mem_singleton.1 hmem ▸ hname named

theorem node?_of_pathOf {id : TableId} {path : String} (hpath : f.pathOf id = .ok path) :
    ∃ n, f.node? id = some n := by
  unfold pathOf ancestors at hpath
  obtain ⟨ids, hancestors, -⟩ := Except.bind_eq_ok.1 hpath
  obtain ⟨n, hn, -⟩ := Except.bind_eq_ok.1 hancestors
  exact ⟨n, node_eq_ok.1 hn⟩

/-- **The parts of the path of a table are the names on the way to it**, if the names are plain. -/
theorem way_of_pathOf (h : f.Linked) (hplain : f.PlainNames) {id : TableId} {path : String}
    (hpath : f.pathOf id = .ok path) : f.Way id (segments path) ∧ "/".intercalate (segments path) = path := by
  obtain ⟨n, hn⟩ := node?_of_pathOf hpath
  obtain ⟨names, hway, hjoin⟩ := exists_way h hn
  obtain rfl := Except.ok.inj (hpath.symm.trans hjoin)
  rw [segments_intercalate hway.ne_nil (hway.plain hplain)]
  exact ⟨hway, rfl⟩

/-- **At the path of a table the leading table with that path is found**, and no other. -/
theorem findPath?_eq_some (h : f.Linked) (hplain : f.PlainNames) {id : TableId} {path : String}
    (hpath : f.pathOf id = .ok path) (other : TableId) :
    f.findPath? path = some other ↔ f.pathOf other = .ok path ∧ f.Leading other := by
  rw [findPath?_eq, findNames?_eq_some h]
  refine and_congr_left fun _ => ⟨fun hway => ?_, fun hother => (way_of_pathOf h hplain hother).1⟩
  rw [pathOf_of_way h hway, (way_of_pathOf h hplain hpath).2]

/-- Where no two tables beside each other have one name, every table is the first of its name. -/
theorem DistinctNames.first (hdistinct : f.DistinctNames) (h : f.Linked) {id : TableId} {q : Option TableId}
    (hparent : f.parentOf? id = some q) : f.First id := by
  obtain ⟨ids, hids, hcount⟩ := exists_place h hparent
  obtain ⟨before, after, rfl⟩ := List.append_of_mem (List.count_pos_iff.1 (hcount ▸ Nat.one_pos))
  obtain ⟨-, -, hbefore⟩ := List.pairwise_append.1 (hdistinct q _ hids)
  exact ⟨q, before, after, hids, fun s hs => hbefore s hs id List.mem_cons_self⟩

theorem DistinctNames.leading (hdistinct : f.DistinctNames) (h : f.Linked) {id : TableId} {n : ForestNode}
    (hnode : f.node? id = some n) : f.Leading id := by
  induction hnode using h.parent_induction with
  | root _ htop => exact (leading_of_root htop).2 (hdistinct.first h htop)
  | child _ _ hparent ih => exact (leading_of_child hparent).2 ⟨hdistinct.first h hparent, ih⟩

/-! ## Forests that can be built -/

/-- **What is found at the path of a table**, in every forest with plain names: among the tables with that path the
leading one, on the way to which each table is the first of its name.  If none is leading, nothing is found. -/
theorem findPath?_pathOf_iff (history : List ForestOperation) (hplain : (empty.run history).PlainNames)
    {id : TableId} {n : ForestNode} (hnode : (empty.run history).node? id = some n) :
    ∃ path, (empty.run history).pathOf id = .ok path ∧
      ∀ other, (empty.run history).findPath? path = some other ↔
        (empty.run history).pathOf other = .ok path ∧ (empty.run history).Leading other := by
  have hlinked := (sound_empty.run history).linked
  obtain ⟨names, -, hpath⟩ := exists_way hlinked hnode
  exact ⟨_, hpath, findPath?_eq_some hlinked hplain hpath⟩

/-- Two scans of one name, both with a table of peaks, and notes below the second. -/
def rescanned : List ForestOperation :=
  [.insertRoot "scan" [], .insertRoot "scan" [], .insertChild ⟨0⟩ "peaks" [], .insertChild ⟨1⟩ "peaks" [],
    .insertChild ⟨1⟩ "notes" []]

/-- The peaks of the second scan have the path of those of the first, which are found. -/
theorem first_peaks_found :
    (empty.run rescanned).PlainNames ∧ ((empty.run rescanned).node? ⟨3⟩).isSome ∧
      ∃ path, (empty.run rescanned).pathOf ⟨3⟩ = .ok path ∧ (empty.run rescanned).findPath? path = some ⟨2⟩ ∧
        (empty.run rescanned).pathOf ⟨2⟩ = .ok path ∧ (empty.run rescanned).Leading ⟨2⟩ := by
  have hplain : (empty.run rescanned).PlainNames := by decide +kernel
  have hlive : ((empty.run rescanned).node? ⟨3⟩).isSome := rfl
  obtain ⟨n, hn⟩ := Option.isSome_iff_exists.1 hlive
  obtain ⟨path, hpath, hfound⟩ := findPath?_pathOf_iff rescanned hplain hn
  obtain rfl : path = "scan/peaks" := Except.ok.inj (hpath.symm.trans (by decide +kernel))
  have hfirst : (empty.run rescanned).findPath? "scan/peaks" = some ⟨2⟩ := by decide +kernel
  exact ⟨hplain, hlive, _, hpath, hfirst, (hfound ⟨2⟩).1 hfirst⟩

/-- **A table may not be found at its own path**: the notes are below the second scan, and only the first is
searched. -/
theorem notes_not_found :
    (empty.run rescanned).PlainNames ∧ (empty.run rescanned).pathOf ⟨4⟩ = .ok "scan/notes" ∧
      (empty.run rescanned).findPath? "scan/notes" = none := by
  decide +kernel

/-- **Paths lead both ways**: what is found at a path has the parts of the path on its way, and where names are plain
and no two beside each other are the same, every table is found at its own path. -/
theorem findPath?_both_ways (history : List ForestOperation) :
    (∀ path id, (empty.run history).findPath? path = some id → (empty.run history).Way id (segments path)) ∧
    ((empty.run history).PlainNames → (empty.run history).DistinctNames →
      ∀ id n, (empty.run history).node? id = some n →
        ∃ path, (empty.run history).pathOf id = .ok path ∧ (empty.run history).findPath? path = some id) := by
  have hlinked := (sound_empty.run history).linked
  refine ⟨fun _ _ => way_of_findPath? hlinked, fun hplain hdistinct id n hnode => ?_⟩
  obtain ⟨names, -, hpath⟩ := exists_way hlinked hnode
  exact ⟨_, hpath, (findPath?_eq_some hlinked hplain hpath id).2 ⟨hpath, hdistinct.leading hlinked hnode⟩⟩

/-- A scan with peaks, which have peaks below them, and peaks that are no longer below a scan. -/
def resolved : List ForestOperation :=
  [.insertRoot "scan" [], .insertChild ⟨0⟩ "peaks" [], .insertChild ⟨1⟩ "peaks" [], .insertChild ⟨0⟩ "notes" [],
    .insertChild ⟨3⟩ "peaks" [], .detach ⟨4⟩]

/-- One name at several levels leads to different tables, and slashes too many count for nothing. -/
theorem inner_peaks_found :
    (empty.run resolved).PlainNames ∧ (empty.run resolved).DistinctNames ∧
      ((empty.run resolved).node? ⟨2⟩).isSome ∧
      (empty.run resolved).findPath? "scan/peaks/peaks" = some ⟨2⟩ ∧
      (empty.run resolved).findPath? "/scan//peaks/" = some ⟨1⟩ ∧
      (empty.run resolved).Way ⟨1⟩ ["scan", "peaks"] := by
  obtain ⟨hway, hfound⟩ := findPath?_both_ways resolved
  have hplain : (empty.run resolved).PlainNames := by decide +kernel
  have hdistinct : (empty.run resolved).DistinctNames := by decide +kernel
  have hlive : ((empty.run resolved).node? ⟨2⟩).isSome := rfl
  obtain ⟨n, hn⟩ := Option.isSome_iff_exists.1 hlive
  obtain ⟨path, hpath, hinner⟩ := hfound hplain hdistinct ⟨2⟩ n hn
  obtain rfl : path = "scan/peaks/peaks" := Except.ok.inj (hpath.symm.trans (by decide +kernel))
  have houter : (empty.run resolved).findPath? "/scan//peaks/" = some ⟨1⟩ := by decide +kernel
  -- slashes at the ends and empty names do not count
  have hsegments : segments "/scan//peaks/" = ["scan", "peaks"] := by decide +kernel
  exact ⟨hplain, hdistinct, hlive, hinner, houter, hsegments ▸ hway _ _ houter⟩

end TableForest.Forest
