import TableForest.Proofs.Cell.Text
import TableForest.Proofs.Files.TextPath
import TableForest.Proofs.Json.Decode
import TableForest.Proofs.Json.Reader
import TableForest.Proofs.Moment.Text

/-!
# Documents are read back up to a depth

A document is read back from its JSON exactly if no table in it stands too deep.  The writer nests as deep as
the tables do, but the reader gives up below `Json.maxDepth` collections: a table takes two of them, an object
and the array around it, and its columns take two more.

## The architecture

* The records inside of a table are read back whenever the depth that is left suffices for them.
* **`TableDocument.follow?`** finds a stored table by the positions on the way to it, and
  **`TableDocument.Shallow`** bounds the length of these ways.
* **`TableDocument.allOfJson?_allToJson`** and **`TableDocument.allOfJson?_of_not_shallow`** are the two sides
  of the condition, by induction on the levels that are left.
* **`TableDocument.Everywhere`** says something of all stored tables.  **`TreeDocument.spelled_toJson_iff`**: all
  strings of a document are texts iff all paths in it are.
* **`TreeDocument.read?_bytes`** and **`TreeDocument.read?_bytes_of_not_shallow`** say the same of bytes.
-/

namespace TableForest

/-! ## Records inside of a table -/

theorem Path.spelled_toJson_iff (p : Path) : p.toJson.Spelled ↔ p.IsText := by
  unfold Path.toJson Path.IsText
  cases p.text? with
  | none => exact iff_of_false nofun nofun
  | some s => exact iff_of_true (.string s) rfl

theorem Path.nullable?_toJson {p : Path} (h : p.IsText) : Json.nullable? Path.ofJson? p.toJson = some (some p) := by
  unfold Path.toJson
  rw [h.text?_eq]
  show some (some (Path.ofText p.text)) = _
  rw [Path.ofText_text_iff.2 h]

/-- A path is read back if it is there, and nothing if there is none. -/
theorem Path.orElse?_toJson {p? : Option Path} (h : ∀ p ∈ p?, p.IsText) :
    Json.orElse? none (Json.nullable? Path.ofJson?) (p?.map Path.toJson) = some p? := by
  cases p? with
  | none => rfl
  | some p => exact Path.nullable?_toJson (h p rfl)

theorem nullable?_ofString (s : String) : Json.nullable? Json.asString? (.ofString s) = some (some s) := rfl

namespace LinkDefaults

def fields (d : LinkDefaults) : List (String × Option Json) :=
  [("base_dir", d.baseDir.map Path.toJson), ("prefix", d.stem.map Json.ofString),
    ("extension", d.extension.map Json.ofString), ("counter", some (.ofNat d.counter.toNat))]

theorem toJson_eq (d : LinkDefaults) : d.toJson = .ofFields d.fields := by
  unfold toJson fields Json.ofFields
  simp only [List.flatMap_cons, List.flatMap_nil, List.append_nil, List.append_assoc]
  rfl

/-- Settings of links are all text iff their directory is. -/
theorem spelled_toJson_iff (d : LinkDefaults) : d.toJson.Spelled ↔ ∀ p ∈ d.baseDir, p.IsText := by
  rw [toJson_eq, Json.spelled_ofFields_iff]
  refine ⟨fun h p hp => ?_, fun h p hp v hv => ?_⟩
  · refine p.spelled_toJson_iff.1 (h ("base_dir", d.baseDir.map Path.toJson) List.mem_cons_self _ ?_)
    exact congrArg (Option.map Path.toJson) hp
  simp only [fields, List.mem_cons, List.not_mem_nil, or_false] at hp
  rcases hp with rfl | rfl | rfl | rfl
  · obtain ⟨q, hq, rfl⟩ := Option.map_eq_some_iff.1 hv
    exact q.spelled_toJson_iff.2 (h q hq)
  · obtain ⟨s, -, rfl⟩ := Option.map_eq_some_iff.1 hv
    exact .string s
  · obtain ⟨s, -, rfl⟩ := Option.map_eq_some_iff.1 hv
    exact .string s
  · obtain rfl := Option.some.inj hv
    exact .number _

theorem ofJson?_toJson {d : LinkDefaults} (hpaths : ∀ p ∈ d.baseDir, p.IsText) (depth : Nat) :
    LinkDefaults.ofJson? (depth + 1) d.toJson = some d := by
  have hnames : List.Nodup ["base_dir", "prefix", "extension", "counter"] := by decide
  have hrecord := Json.asRecord?_ofFields d.fields hnames depth
  simp only [fields, List.map_cons, List.map_nil] at hrecord
  unfold LinkDefaults.ofJson?
  rw [toJson_eq]
  simp only [fields, hrecord, bind, Option.bind_some, Path.orElse?_toJson hpaths,
    Json.orElse?_nullable? nullable?_ofString, Json.orElse?_some, Json.asUInt32?_ofNat]
  rfl

end LinkDefaults

namespace LinkPolicy

def fields (p : LinkPolicy) : List (String × Option Json) :=
  [("counter_width", some (.ofNat p.counterWidth.toNat)), ("separator", some (.ofString p.separator)),
    ("max_probe", some (.ofNat p.maxProbe.toNat))]

theorem toJson_eq (p : LinkPolicy) : p.toJson = .ofFields p.fields := rfl

theorem spelled_toJson (p : LinkPolicy) : p.toJson.Spelled := by
  rw [toJson_eq]
  refine Json.spelled_ofFields_iff.2 fun q hq v hv => ?_
  simp only [fields, List.mem_cons, List.not_mem_nil, or_false] at hq
  rcases hq with rfl | rfl | rfl
  · obtain rfl := Option.some.inj hv
    exact .number _
  · obtain rfl := Option.some.inj hv
    exact .string _
  · obtain rfl := Option.some.inj hv
    exact .number _

theorem nullable?_toJson (depth : Nat) (p : LinkPolicy) :
    Json.nullable? (LinkPolicy.ofJson? (depth + 1)) p.toJson = some (some p) := by
  have hnames : List.Nodup ["counter_width", "separator", "max_probe"] := by decide
  have hrecord := Json.asRecord?_ofFields p.fields hnames depth
  simp only [fields, List.map_cons, List.map_nil] at hrecord
  have hread : LinkPolicy.ofJson? (depth + 1) p.toJson = some p := by
    unfold LinkPolicy.ofJson?
    rw [toJson_eq]
    simp only [fields, hrecord, bind, Option.bind_some, Json.required?_some, Json.asUInt64?_ofNat,
      Json.asUInt32?_ofNat]
    rfl
  show (LinkPolicy.ofJson? (depth + 1) p.toJson).map some = _
  rw [hread]
  rfl

end LinkPolicy

namespace Creation

def fields (c : Creation) : List (String × Option Json) :=
  [("command", some (.ofString c.command)), ("parameters", some c.parameters.toJson),
    ("created", some (.ofString (c.created.text .letter)))]

theorem toJson_eq (c : Creation) : c.toJson = .ofFields c.fields := rfl

theorem spelled_toJson (c : Creation) : c.toJson.Spelled := by
  rw [toJson_eq]
  refine Json.spelled_ofFields_iff.2 fun q hq v hv => ?_
  simp only [fields, List.mem_cons, List.not_mem_nil, or_false] at hq
  rcases hq with rfl | rfl | rfl
  · obtain rfl := Option.some.inj hv
    exact .string _
  · obtain rfl := Option.some.inj hv
    exact c.parameters.spelled_toJson
  · obtain rfl := Option.some.inj hv
    exact .string _

theorem ofJson?_toJson (depth : Nat) {c : Creation} (hc : c.created.IsRegular) :
    Creation.ofJson? (depth + 2) c.toJson = some c := by
  have hnames : List.Nodup ["command", "parameters", "created"] := by decide
  have hrecord := Json.asRecord?_ofFields c.fields hnames (depth + 1)
  simp only [fields, List.map_cons, List.map_nil] at hrecord
  have hstring : ∀ s, (Json.ofString s).asString? = some s := fun _ => rfl
  unfold Creation.ofJson?
  rw [toJson_eq]
  simp only [fields, hrecord, bind, Option.bind_some, Json.required?_some, Json.orElse?_some, hstring,
    show depth + 2 - 1 = depth + 1 from rfl, Dict.ofJson?_toJson, Moment.read?_text hc]
  rfl

end Creation

/-! ## Columns -/

namespace ColumnDocument

def fields (c : ColumnDocument) : List (String × Option Json) :=
  [("name", some (.ofString c.name)), ("kind", some (.ofString c.kind.name)),
    ("subtype", some (.ofString c.subtype.text)), ("link", c.link.map LinkDefaults.toJson),
    ("extra", if c.extra.isEmpty then none else some c.extra.toJson),
    ("cells", some (.array (c.cells.map .ofString)))]

theorem toJson_eq (c : ColumnDocument) : c.toJson = .ofFields c.fields := by
  have hextra : (if c.extra.isEmpty then [] else [("extra", c.extra.toJson)]) =
      optionalMember "extra" (if c.extra.isEmpty then none else some c.extra.toJson) := by
    split
    · rfl
    · rfl
  unfold toJson fields Json.ofFields
  rw [hextra]
  simp only [List.flatMap_cons, List.flatMap_nil, List.append_nil, List.append_assoc]
  rfl

/-- The paths in a stored column: the directory of its files, if it has one. -/
def paths (c : ColumnDocument) : List Path :=
  (c.link.bind (·.baseDir)).toList

theorem mem_paths_iff (c : ColumnDocument) {p : Path} : p ∈ c.paths ↔ ∃ d ∈ c.link, p ∈ d.baseDir := by
  rw [paths, Option.mem_toList, Option.bind_eq_some_iff]
  rfl

theorem spelled_toJson_iff (c : ColumnDocument) : c.toJson.Spelled ↔ ∀ p ∈ c.paths, p.IsText := by
  rw [toJson_eq, Json.spelled_ofFields_iff]
  -- only the link of a column has a path
  refine ⟨fun h p hp => ?_, fun h q hq v hv => ?_⟩
  · obtain ⟨d, hd, hp⟩ := c.mem_paths_iff.1 hp
    refine d.spelled_toJson_iff.1 (h ("link", c.link.map LinkDefaults.toJson) (by simp [fields]) _ ?_) p hp
    exact congrArg (Option.map LinkDefaults.toJson) hd
  -- the six members of the object, of which the fourth is the link
  simp only [fields, List.mem_cons, List.not_mem_nil, or_false] at hq
  rcases hq with rfl | rfl | rfl | rfl | rfl | rfl
  · obtain rfl := Option.some.inj hv
    exact .string _
  · obtain rfl := Option.some.inj hv
    exact .string _
  · obtain rfl := Option.some.inj hv
    exact .string _
  · obtain ⟨d, hd, rfl⟩ := Option.map_eq_some_iff.1 hv
    exact d.spelled_toJson_iff.2 fun p hp => h p (c.mem_paths_iff.2 ⟨d, hd, hp⟩)
  · simp only at hv
    split at hv
    · cases hv
    · obtain rfl := Option.some.inj hv
      exact c.extra.spelled_toJson
  · obtain rfl := Option.some.inj hv
    exact Json.spelled_texts c.cells

theorem link_read (depth : Nat) {c : ColumnDocument} (hpaths : ∀ p ∈ c.paths, p.IsText) :
    Json.orElse? none (Json.nullable? (LinkDefaults.ofJson? (depth + 1))) (c.link.map LinkDefaults.toJson) =
      some c.link := by
  cases hlink : c.link with
  | none => rfl
  | some d =>
    have hdir : ∀ p ∈ d.baseDir, p.IsText := fun p hp => hpaths p (c.mem_paths_iff.2 ⟨d, hlink, hp⟩)
    show (LinkDefaults.ofJson? (depth + 1) d.toJson).map some = _
    rw [LinkDefaults.ofJson?_toJson hdir]
    rfl

theorem extra_read (depth : Nat) (c : ColumnDocument) :
    Json.orElse? .empty (Dict.ofJson? (depth + 1)) (if c.extra.isEmpty then none else some c.extra.toJson) =
      some c.extra := by
  split
  · rename_i h
    rw [Dict.eq_empty h]
    rfl
  · exact c.extra.ofJson?_toJson depth

theorem ofJson?_toJson {c : ColumnDocument} (hpaths : ∀ p ∈ c.paths, p.IsText) (depth : Nat) :
    ColumnDocument.ofJson? (depth + 2) c.toJson = some c := by
  have hnames : List.Nodup ["name", "kind", "subtype", "link", "extra", "cells"] := by decide
  have hrecord := Json.asRecord?_ofFields c.fields hnames (depth + 1)
  simp only [fields, List.map_cons, List.map_nil] at hrecord
  have hstring : ∀ s, (Json.ofString s).asString? = some s := fun _ => rfl
  have hkind : Json.asName? Kind.ofExactName? (depth + 1) (.ofString c.kind.name) = some c.kind :=
    Kind.ofExactName?_name c.kind
  have hcells : Json.asArray? (fun _ => Json.asString?) (depth + 1) (.array (c.cells.map .ofString)) =
      some c.cells := Json.asArray?_map _ fun _ _ => rfl
  unfold ColumnDocument.ofJson?
  rw [toJson_eq]
  simp only [fields, hrecord, bind, Option.bind_some, Json.required?_some, Json.orElse?_some, hstring,
    show depth + 2 - 1 = depth + 1 from rfl, hkind, link_read depth hpaths,
    extra_read depth c, hcells]
  rfl

/-- With one level left there is none for the cells. -/
theorem ofJson?_one (c : ColumnDocument) : ColumnDocument.ofJson? 1 c.toJson = none := by
  have hnames : List.Nodup ["name", "kind", "subtype", "link", "extra", "cells"] := by decide
  have hrecord := Json.asRecord?_ofFields c.fields hnames 0
  simp only [fields, List.map_cons, List.map_nil, Nat.zero_add] at hrecord
  -- The cells stand last, and whatever is read before them does not help.
  have hcells : Json.asArray? (fun _ => Json.asString?) 0 (.array (c.cells.map .ofString)) = none := rfl
  unfold ColumnDocument.ofJson?
  rw [toJson_eq]
  simp only [fields, hrecord, bind, Option.bind_some, Json.orElse?_some, Nat.sub_self, hcells,
    Option.bind_none, Option.bind_fun_none]

end ColumnDocument

/-! ## Depth -/

namespace TableDocument

/-- The stored table that positions lead to: its place among the tables, then among the children of that one,
and so on. -/
def follow? : List TableDocument → List Nat → Option TableDocument
  | _, [] => none
  | ds, [i] => ds[i]?
  | ds, i :: j :: path => ds[i]?.bind fun d => follow? d.children (j :: path)

theorem follow?_singleton (ds : List TableDocument) (i : Nat) : follow? ds [i] = ds[i]? := rfl

theorem follow?_cons {ds : List TableDocument} {i : Nat} {d : TableDocument} (hd : ds[i]? = some d)
    {path : List Nat} (hpath : path ≠ []) : follow? ds (i :: path) = follow? d.children path := by
  cases path with
  | nil => exact absurd rfl hpath
  | cons j path =>
    rw [follow?, hd]
    rfl

/-- One position more leads to a child. -/
theorem follow?_append {ds : List TableDocument} {path : List Nat} {d : TableDocument}
    (h : follow? ds path = some d) (i : Nat) : follow? ds (path ++ [i]) = d.children[i]? := by
  -- the path is followed to its end, and one step more leads from there to the child
  induction path generalizing ds with
  | nil => cases h
  | cons j path ih =>
    cases hj : ds[j]? with
    | none =>
      cases path with
      | nil => exact nomatch hj.symm.trans h
      | cons k path =>
        rw [follow?, hj] at h
        cases h
    | some e =>
      rw [List.cons_append, follow?_cons hj (List.append_ne_nil_of_right_ne_nil _ (List.cons_ne_nil _ _))]
      cases path with
      | nil =>
        obtain rfl := Option.some.inj (hj.symm.trans h)
        rfl
      | cons k path => exact ih ((follow?_cons hj (List.cons_ne_nil _ _)).symm.trans h)

/-- Stored tables fit into so many levels: each table takes one for itself and one for what is in it, and one
more if it has columns. -/
def Shallow (levels : Nat) (ds : List TableDocument) : Prop :=
  ∀ path d, follow? ds path = some d → path.length + (if d.columns.isEmpty then 1 else 2) ≤ levels

theorem shallow_nil (levels : Nat) : Shallow levels [] := by
  intro path d h
  cases path with
  | nil => cases h
  | cons i path =>
    cases path with
    | nil => cases h
    | cons j path => cases h

/-- The children of a table have one level less. -/
theorem shallow_succ {levels : Nat} {ds : List TableDocument} :
    Shallow (levels + 1) ds ↔
      ∀ d ∈ ds, (if d.columns.isEmpty then 1 else 2) ≤ levels ∧ Shallow levels d.children := by
  constructor
  · intro h d hd
    obtain ⟨i, hi⟩ := List.mem_iff_getElem?.1 hd
    have hself := h [i] d hi
    rw [List.length_singleton] at hself
    -- Below `d` a way is one position shorter than from where `d` stands.
    refine ⟨by omega, fun path e he => ?_⟩
    have hpath : path ≠ [] := by
      rintro rfl
      cases he
    have hdeep := h (i :: path) e ((follow?_cons hi hpath).trans he)
    rw [List.length_cons] at hdeep
    omega
  · intro h path e he
    cases path with
    | nil => cases he
    | cons i path =>
      cases hi : ds[i]? with
      | none =>
        cases path with
        | nil =>
          rw [follow?_singleton, hi] at he
          cases he
        | cons j path =>
          rw [follow?, hi] at he
          cases he
      | some d =>
        obtain ⟨hself, hchildren⟩ := h d (List.mem_of_getElem? hi)
        cases path with
        | nil =>
          rw [follow?_singleton, hi] at he
          obtain rfl := Option.some.inj he
          rw [List.length_singleton]
          omega
        | cons j path =>
          rw [follow?_cons hi (List.cons_ne_nil _ _)] at he
          have hdeep := hchildren (j :: path) e he
          rw [List.length_cons]
          omega

theorem not_shallow_zero {ds : List TableDocument} (h : ds ≠ []) : ¬Shallow 0 ds := by
  obtain ⟨d, rest, rfl⟩ := List.exists_cons_of_ne_nil h
  intro hshallow
  have hdeep := hshallow [0] d rfl
  rw [List.length_singleton] at hdeep
  omega

/-! ## Tables -/

def fields (d : TableDocument) : List (String × Option Json) :=
  [("name", some (.ofString d.name)), ("working_dir", d.workingDir.map Path.toJson),
    ("creation", d.creation.map Creation.toJson), ("link_policy", d.linkPolicy.map LinkPolicy.toJson),
    ("columns", some (.array (d.columns.map ColumnDocument.toJson))),
    ("children", if d.children.isEmpty then none else some (.array (allToJson d.children)))]

theorem toJson_eq (d : TableDocument) : d.toJson = .ofFields d.fields := by
  obtain ⟨name, workingDir, creation, linkPolicy, columns, children⟩ := d
  have hchildren : (if children.isEmpty then [] else [("children", Json.array (allToJson children))]) =
      optionalMember "children" (if children.isEmpty then none else some (.array (allToJson children))) := by
    split
    · rfl
    · rfl
  unfold toJson fields Json.ofFields
  rw [hchildren]
  simp only [List.flatMap_cons, List.flatMap_nil, List.append_nil, List.append_assoc]
  rfl

theorem allToJson_eq_map (ds : List TableDocument) : allToJson ds = ds.map toJson := by
  induction ds with
  | nil => rfl
  | cons d rest ih =>
    rw [allToJson, ih]
    rfl

/-- What is read of a stored table, member by member. -/
theorem ofJson?_toJson (children? : Json → Option (List TableDocument)) (depth : Nat) (d : TableDocument) :
    TableDocument.ofJson? children? depth d.toJson = do
      let workingDir ← Json.orElse? none (Json.nullable? Path.ofJson?) (d.workingDir.map Path.toJson)
      let creation ← Json.orElse? none (Json.nullable? (Creation.ofJson? depth))
        (d.creation.map Creation.toJson)
      let linkPolicy ← Json.orElse? none (Json.nullable? (LinkPolicy.ofJson? depth))
        (d.linkPolicy.map LinkPolicy.toJson)
      let columns ← Json.asArray? ColumnDocument.ofJson? depth
        (.array (d.columns.map ColumnDocument.toJson))
      let children ← Json.orElse? [] children?
        (if d.children.isEmpty then none else some (.array (allToJson d.children)))
      return ⟨d.name, workingDir, creation, linkPolicy, columns, children⟩ := by
  have hnames : List.Nodup ["name", "working_dir", "creation", "link_policy", "columns", "children"] := by
    decide
  have hrecord := Json.asRecord?_ofFields d.fields hnames depth
  simp only [fields, List.map_cons, List.map_nil] at hrecord
  -- of the members, only those that may be left out or nested need to be read for themselves
  have hstring : ∀ s, (Json.ofString s).asString? = some s := fun _ => rfl
  unfold TableDocument.ofJson?
  rw [toJson_eq]
  simp only [fields, hrecord, bind, Option.bind_some, Json.required?_some, Json.orElse?_some, hstring]

/-- The paths in a stored table itself: its directory, and those of its columns. -/
def paths (d : TableDocument) : List Path :=
  d.workingDir.toList ++ d.columns.flatMap ColumnDocument.paths

/-- A table is read back if its children are, and if enough levels are left for what is in it. -/
theorem ofJson?_toJson_of_levels {children? : Json → Option (List TableDocument)} {levels : Nat}
    {d : TableDocument} (hregular : ∀ c, d.creation = some c → c.created.IsRegular) (hpaths : ∀ p ∈ d.paths, p.IsText)
    (hlevels : (if d.columns.isEmpty then 1 else 2) ≤ levels)
    (hchildren : d.children ≠ [] → children? (.array (allToJson d.children)) = some d.children) :
    TableDocument.ofJson? children? (2 * levels) d.toJson = some d := by
  -- There is a level for the table itself, and what is in it has two collections at the least.
  obtain ⟨k, rfl⟩ : ∃ k, levels = k + 1 := ⟨levels - 1, by split at hlevels <;> omega⟩
  have hdir : Json.orElse? none (Json.nullable? Path.ofJson?) (d.workingDir.map Path.toJson) = some d.workingDir :=
    Path.orElse?_toJson fun p hp => hpaths p (List.mem_append_left _ (Option.mem_toList.2 hp))
  have hcreation : Json.orElse? none (Json.nullable? (Creation.ofJson? (2 * (k + 1))))
      (d.creation.map Creation.toJson) = some d.creation := by
    cases hc : d.creation with
    | none => rfl
    | some c =>
      show (Creation.ofJson? (2 * k + 2) c.toJson).map some = _
      rw [Creation.ofJson?_toJson _ (hregular c hc)]
      rfl
  have hpolicy : Json.orElse? none (Json.nullable? (LinkPolicy.ofJson? (2 * (k + 1))))
      (d.linkPolicy.map LinkPolicy.toJson) = some d.linkPolicy :=
    Json.orElse?_nullable? (LinkPolicy.nullable?_toJson (2 * k + 1)) d.linkPolicy
  have hcolumns : Json.asArray? ColumnDocument.ofJson? (2 * (k + 1))
      (.array (d.columns.map ColumnDocument.toJson)) = some d.columns := by
    refine Json.asArray?_map (2 * k + 1) fun c hc => ?_
    -- A column asks for a level more, and if there is none there is no column.
    rw [if_neg (by simpa using List.ne_nil_of_mem hc)] at hlevels
    obtain ⟨j, rfl⟩ : ∃ j, k = j + 1 := ⟨k - 1, by omega⟩
    refine ColumnDocument.ofJson?_toJson (fun p hp => hpaths p ?_) (2 * j + 1)
    exact List.mem_append_right _ (List.mem_flatMap.2 ⟨c, hc, hp⟩)
  have hbelow : Json.orElse? [] children?
      (if d.children.isEmpty then none else some (.array (allToJson d.children))) = some d.children := by
    split
    · rename_i hempty
      rw [List.isEmpty_iff.1 hempty]
      rfl
    · rename_i hsome
      exact hchildren (by simpa using hsome)
  rw [ofJson?_toJson, hdir, hcreation, hpolicy, hcolumns, hbelow]
  cases d
  rfl

/-- A table is not read if too few levels are left for what is in it. -/
theorem ofJson?_toJson_of_lt {children? : Json → Option (List TableDocument)} {levels : Nat}
    {d : TableDocument} (hlevels : levels < (if d.columns.isEmpty then 1 else 2)) :
    TableDocument.ofJson? children? (2 * levels) d.toJson = none := by
  -- the columns are what there is no room for
  have hcolumns : Json.asArray? ColumnDocument.ofJson? (2 * levels)
      (.array (d.columns.map ColumnDocument.toJson)) = none := by
    cases levels with
    | zero => rfl
    | succ k =>
      split at hlevels
      · omega
      · rename_i hsome
        obtain rfl : k = 0 := by omega
        obtain ⟨c, rest, hcons⟩ := List.exists_cons_of_ne_nil (l := d.columns) (by simpa using hsome)
        refine mapM_eq_none ⟨c.toJson, ?_, c.ofJson?_one⟩
        rw [hcons]
        exact List.mem_cons_self
  rw [ofJson?_toJson, hcolumns]
  simp only [bind, Option.bind_none, Option.bind_fun_none]

theorem ofJson?_toJson_of_children {children? : Json → Option (List TableDocument)} {depth : Nat}
    {d : TableDocument} (hne : d.children ≠ [])
    (hchildren : children? (.array (allToJson d.children)) = none) :
    TableDocument.ofJson? children? depth d.toJson = none := by
  rw [ofJson?_toJson, if_neg (by simpa using hne), Json.orElse?_some, hchildren]
  simp only [bind, Option.bind_none, Option.bind_fun_none]

/-- A property holds of all stored tables, those inside of others included. -/
def Everywhere (P : TableDocument → Prop) (ds : List TableDocument) : Prop :=
  ∀ path d, follow? ds path = some d → P d

/-- What holds everywhere holds of each of the tables, and everywhere inside of it. -/
theorem everywhere_iff {P : TableDocument → Prop} {ds : List TableDocument} :
    Everywhere P ds ↔ ∀ d ∈ ds, P d ∧ Everywhere P d.children := by
  constructor
  · intro h d hd
    -- a place below the top is a step to a table there and a place below that
    obtain ⟨i, hi⟩ := List.mem_iff_getElem?.1 hd
    refine ⟨h [i] d hi, fun path e he => h (i :: path) e ?_⟩
    refine (follow?_cons hi ?_).trans he
    rintro rfl
    cases he
  · intro h path e he
    cases path with
    | nil => cases he
    | cons i path =>
      cases path with
      | nil => exact (h e (List.mem_of_getElem? he)).1
      | cons j path =>
        obtain ⟨d, hd, he⟩ := Option.bind_eq_some_iff.1 he
        exact (h d (List.mem_of_getElem? hd)).2 (j :: path) e he

/-- All moments in stored tables are regular. -/
def Regular (ds : List TableDocument) : Prop :=
  Everywhere (fun d => ∀ c, d.creation = some c → c.created.IsRegular) ds

/-- All paths in stored tables are texts. -/
def HasTextPaths (ds : List TableDocument) : Prop :=
  Everywhere (fun d => ∀ p ∈ d.paths, p.IsText) ds

/-- **Tables that fit into the levels that are left are read back.** -/
theorem allOfJson?_allToJson {levels : Nat} {ds : List TableDocument} (hregular : Regular ds)
    (hpaths : HasTextPaths ds) (hlevels : levels ≠ 0 ∨ ds ≠ []) (h : Shallow levels ds) :
    allOfJson? (2 * levels) (.array (allToJson ds)) = some ds := by
  induction levels generalizing ds with
  -- Without a level only an empty list would fit, and the reader is not asked for one.
  | zero => exact absurd h (not_shallow_zero (hlevels.resolve_left fun hne => hne rfl))
  | succ levels ih =>
    show ((allToJson ds).mapM (TableDocument.ofJson? (allOfJson? (2 * levels)) (2 * levels))) = _
    rw [allToJson_eq_map]
    refine mapM_map_eq_some fun d hd => ?_
    obtain ⟨hself, hbelow⟩ := shallow_succ.1 h d hd
    obtain ⟨hcreation, hmoments⟩ := everywhere_iff.1 hregular d hd
    obtain ⟨hself', htexts⟩ := everywhere_iff.1 hpaths d hd
    exact ofJson?_toJson_of_levels hcreation hself' hself fun hne => ih hmoments htexts (.inr hne) hbelow

/-- **Tables that do not fit are not read.** -/
theorem allOfJson?_of_not_shallow {levels : Nat} {ds : List TableDocument} (h : ¬Shallow levels ds) :
    allOfJson? (2 * levels) (.array (allToJson ds)) = none := by
  induction levels generalizing ds with
  | zero => rfl
  | succ levels ih =>
    show ((allToJson ds).mapM (TableDocument.ofJson? (allOfJson? (2 * levels)) (2 * levels))) = _
    rw [shallow_succ] at h
    -- Some table does not fit, by itself or by what stands below it.
    obtain ⟨d, hfails⟩ := Classical.not_forall.1 h
    obtain ⟨hd, hdeep⟩ := Classical.not_imp.1 hfails
    rw [allToJson_eq_map]
    refine mapM_eq_none ⟨d.toJson, List.mem_map_of_mem hd, ?_⟩
    by_cases hself : (if d.columns.isEmpty then 1 else 2) ≤ levels
    · have hbelow : ¬Shallow levels d.children := fun hshallow => hdeep ⟨hself, hshallow⟩
      refine ofJson?_toJson_of_children ?_ (ih hbelow)
      intro hnil
      rw [hnil] at hbelow
      exact hbelow (shallow_nil levels)
    · exact ofJson?_toJson_of_lt (Nat.not_le.1 hself)

mutual

/-- A stored table is spelled out iff all paths in it and below it are texts. -/
theorem spelled_toJson_iff : ∀ d : TableDocument,
    d.toJson.Spelled ↔ (∀ p ∈ d.paths, p.IsText) ∧ HasTextPaths d.children
  | ⟨name, workingDir, creation, linkPolicy, columns, children⟩ => by
    -- the working directory, the columns and the children have paths; the rest is always spelled out
    have hdir : (∀ v, workingDir.map Path.toJson = some v → v.Spelled) ↔ ∀ p ∈ workingDir, p.IsText := by
      cases workingDir with
      | none => exact iff_of_true nofun nofun
      | some p => simp [p.spelled_toJson_iff]
    have hcreation : ∀ v, creation.map Creation.toJson = some v → v.Spelled := by
      intro v hv
      obtain ⟨c, -, rfl⟩ := Option.map_eq_some_iff.1 hv
      exact c.spelled_toJson
    have hpolicy : ∀ v, linkPolicy.map LinkPolicy.toJson = some v → v.Spelled := by
      intro v hv
      obtain ⟨p, -, rfl⟩ := Option.map_eq_some_iff.1 hv
      exact p.spelled_toJson
    have hcolumns : (Json.array (columns.map ColumnDocument.toJson)).Spelled ↔
        ∀ c ∈ columns, ∀ p ∈ c.paths, p.IsText := by
      rw [Json.spelled_array_iff, List.forall_mem_map]
      exact forall₂_congr fun c _ => c.spelled_toJson_iff
    have hchildren : (∀ v, (if children.isEmpty then none else some (Json.array (allToJson children))) = some v →
        v.Spelled) ↔ HasTextPaths children := by
      rw [← spelled_allToJson_iff children, ← Json.spelled_array_iff]
      cases children with
      | nil => exact iff_of_true nofun (.array nofun)
      | cons d rest => simp
    have hpaths : (∀ p ∈ workingDir.toList ++ columns.flatMap ColumnDocument.paths, p.IsText) ↔
        (∀ p ∈ workingDir, p.IsText) ∧ ∀ c ∈ columns, ∀ p ∈ c.paths, p.IsText := by
      simp only [List.forall_mem_append, List.forall_mem_flatMap, Option.mem_toList, Option.mem_def]
    rw [toJson_eq, Json.spelled_ofFields_iff]
    simp only [fields, List.forall_mem_cons, hdir, hchildren, paths, hpaths]
    constructor
    · rintro ⟨-, hworking, -, -, hcs, hbelow, -⟩
      exact ⟨⟨hworking, hcolumns.1 (hcs _ rfl)⟩, hbelow⟩
    · rintro ⟨⟨hworking, hcs⟩, hbelow⟩
      refine ⟨?_, hworking, hcreation, hpolicy, ?_, hbelow, nofun⟩
      · rintro v ⟨⟩
        exact .string name
      · rintro v ⟨⟩
        exact hcolumns.2 hcs

/-- **Stored tables are spelled out iff all paths in them are texts.** -/
theorem spelled_allToJson_iff : ∀ ds : List TableDocument, (∀ v ∈ allToJson ds, v.Spelled) ↔ HasTextPaths ds
  | [] => iff_of_true nofun (everywhere_iff.2 nofun)
  | d :: rest => by
    have htail : HasTextPaths (d :: rest) ↔
        ((∀ p ∈ d.paths, p.IsText) ∧ HasTextPaths d.children) ∧ HasTextPaths rest :=
      everywhere_iff.trans (List.forall_mem_cons.trans (and_congr_right fun _ => everywhere_iff.symm))
    rw [htail, ← spelled_toJson_iff d, ← spelled_allToJson_iff rest, allToJson, List.forall_mem_cons]

end

end TableDocument

/-! ## Forests -/

namespace TreeDocument

/-- The levels of tables that the reader has room for. -/
def levels : Nat := (Json.maxDepth - 1) / 2

/-- **A document is spelled out iff all paths in it are texts.** -/
theorem spelled_toJson_iff (d : TreeDocument) : d.toJson.Spelled ↔ TableDocument.HasTextPaths d.tables := by
  have hversion : (Json.ofNat d.version.toNat).Spelled := .number _
  rw [toJson, Json.spelled_ofMembers_iff, ← TableDocument.spelled_allToJson_iff]
  simp [hversion, Json.spelled_array_iff]

/-- What is read of a stored forest comes down to its tables. -/
theorem ofJson?_toJson (d : TreeDocument) :
    TreeDocument.ofJson? d.toJson =
      (TableDocument.allOfJson? (2 * levels) (.array (TableDocument.allToJson d.tables))).map
        (⟨d.version, ·⟩) := by
  -- the two members of the object; the tables are read with what depth is left
  have hnames : List.Nodup ["version", "tables"] := by decide
  have hrecord := Json.asRecord?_ofFields [("version", some (Json.ofNat d.version.toNat)),
    ("tables", some (.array (TableDocument.allToJson d.tables)))] hnames 126
  simp only [List.map_cons, List.map_nil] at hrecord
  unfold TreeDocument.ofJson?
  rw [show d.toJson = Json.ofFields [("version", some (Json.ofNat d.version.toNat)),
    ("tables", some (.array (TableDocument.allToJson d.tables)))] from rfl,
    show Json.maxDepth = 126 + 1 from rfl, hrecord]
  simp only [bind, Option.bind_some, Json.orElse?_some, Json.asUInt32?_ofNat]
  show Option.bind (TableDocument.allOfJson? (2 * levels) _) _ = _
  cases TableDocument.allOfJson? (2 * levels) (.array (TableDocument.allToJson d.tables)) with
  | none => rfl
  | some ds => rfl

/-- **The bytes of a document whose tables fit are read back.** -/
theorem read?_bytes (style : Json.Style) {d : TreeDocument} (hregular : TableDocument.Regular d.tables)
    (hpaths : TableDocument.HasTextPaths d.tables) (h : TableDocument.Shallow levels d.tables) :
    TreeDocument.read? (d.bytes style) = some d := by
  unfold TreeDocument.read? TreeDocument.bytes
  rw [Json.read?_bytes style (d.spelled_toJson_iff.2 hpaths), Option.bind_some, ofJson?_toJson,
    TableDocument.allOfJson?_allToJson hregular hpaths (.inl (by decide)) h]
  rfl

/-- **The bytes of a document whose tables do not fit are not read.** -/
theorem read?_bytes_of_not_shallow (style : Json.Style) {d : TreeDocument}
    (hpaths : TableDocument.HasTextPaths d.tables) (h : ¬TableDocument.Shallow levels d.tables) :
    TreeDocument.read? (d.bytes style) = none := by
  unfold TreeDocument.read? TreeDocument.bytes
  rw [Json.read?_bytes style (d.spelled_toJson_iff.2 hpaths), Option.bind_some, ofJson?_toJson,
    TableDocument.allOfJson?_of_not_shallow h]
  rfl

end TreeDocument
end TableForest
