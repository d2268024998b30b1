import TableForest.Proofs.Document.Acceptance
import TableForest.Proofs.Document.Positions
import TableForest.Proofs.Document.Written
import TableForest.Proofs.Table.Conversion

/-!
# Documents and forests whose paths are texts

A forest has a document with bytes exactly if all paths in it are texts.  A forest that was read has no other paths,
since JSON holds nothing but text.

## The architecture

* **`Forest.HasTextPaths`** says it of a forest, and **`Forest.hasTextPaths_iff_of_describes`** carries it over to
  the stored form.
* **`Table.paths_set`** and **`Table.paths_of_addColumnWithCells`** are the paths of a table that is edited.
* **`TreeDocument.hasTextPaths_of_read`** goes through the reader: every path in a document was a string.
* **`TreeDocument.hasTextPaths_of_toForest`** takes it to the forest that is built.
-/

namespace TableForest

/-! ## Tables -/

/-- The paths in a table: its directory, and those of its columns. -/
def Table.paths (t : Table) : List Path :=
  t.workingDir.toList ++ t.columns.flatMap fun c => c.info.link.baseDir.toList

/-- All paths in a forest are texts. -/
def Forest.HasTextPaths (f : Forest) : Prop :=
  ∀ id n, f.node? id = some n → ∀ p ∈ n.table.paths, p.IsText

instance (f : Forest) : Decidable f.HasTextPaths :=
  decidable_of_iff (∀ i < f.nodes.length, ∀ n ∈ f.node? ⟨i⟩, ∀ p ∈ n.table.paths, p.IsText)
    ⟨fun h id n hn => h id.index (Forest.index_lt_of_node? hn) n hn, fun h i _ n hn => h ⟨i⟩ n hn⟩

/-- The directory of the files of a column stands in its description. -/
theorem ColumnDocument.paths_eq (c : ColumnDocument) : c.paths = c.info.link.baseDir.toList := by
  unfold paths info
  cases c.link with
  | none => rfl
  | some d => rfl

/-- The paths of a table stand in its description and in those of its columns. -/
theorem Table.paths_eq (t : Table) :
    t.paths = t.workingDir.toList ++ t.infos.flatMap fun c => c.link.baseDir.toList := by
  unfold paths infos
  rw [List.flatMap_map]

namespace TableDocument

theorem paths_eq (d : TableDocument) :
    d.paths = d.workingDir.toList ++ (d.columns.map ColumnDocument.info).flatMap fun c => c.link.baseDir.toList := by
  unfold paths
  rw [List.flatMap_map]
  exact congrArg _ (List.flatMap_congr fun c _ => c.paths_eq)

/-- **The stored form of a table has the paths of the table.** -/
theorem paths_of_describes {t : Table} {d : TableDocument} (h : Describes t d) : d.paths = t.paths := by
  have hdir : d.workingDir = t.workingDir := congrArg TableDocument.workingDir h
  have hcolumns : d.columns = t.columns.map ColumnDocument.ofColumn := congrArg TableDocument.columns h
  have hinfos : d.columns.map ColumnDocument.info = t.infos := by
    rw [hcolumns, List.map_map]
    exact List.map_congr_left fun c _ => ColumnDocument.info_ofColumn c
  rw [paths_eq, Table.paths_eq, hdir, hinfos]

/-- **A table that is built has the paths of the stored one.** -/
theorem paths_of_builds {t : Table} {d : TableDocument} (h : Builds t d) : d.paths = t.paths := by
  obtain ⟨columns, hbuilt, hread⟩ := toTable_of_acceptable (exists_toTable_iff.1 ⟨t, h⟩)
  obtain rfl := Except.ok.inj ((show d.toTable = .ok t from h).symm.trans hbuilt)
  have hinfos : d.columns.map ColumnDocument.info = columns.map Column.info := by
    rw [← List.forall₂_eq_eq_eq, List.forall₂_map_left_iff, List.forall₂_map_right_iff]
    exact hread.imp fun _ _ hcolumn => hcolumn.info.symm
  rw [paths_eq, Table.paths_eq, hinfos]
  rfl

end TableDocument

/-! ## Forests -/

namespace Forest

open TableDocument

variable {f : Forest} {ds : List TableDocument}

/-- **The stored form of a forest has text paths iff the forest has.** -/
theorem hasTextPaths_iff_of_describes (hlinked : f.Linked) (h : f.Represents Describes 0 f.roots ds) :
    TableDocument.HasTextPaths ds ↔ f.HasTextPaths :=
  h.everywhere_iff hlinked (P := fun d => ∀ p ∈ d.paths, p.IsText) (Q := fun t => ∀ p ∈ t.paths, p.IsText)
    fun t d hdescribes => by rw [paths_of_describes hdescribes]

theorem hasTextPaths_iff_of_builds (hlinked : f.Linked) (h : f.Represents Builds 0 f.roots ds) :
    TableDocument.HasTextPaths ds ↔ f.HasTextPaths :=
  h.everywhere_iff hlinked (P := fun d => ∀ p ∈ d.paths, p.IsText) (Q := fun t => ∀ p ∈ t.paths, p.IsText)
    fun t d hbuilds => by rw [paths_of_builds hbuilds]

/-- A table that takes the place of another one brings its own paths. -/
theorem HasTextPaths.setTable (h : f.HasTextPaths) (id : TableId) {t : Table} (ht : ∀ p ∈ t.paths, p.IsText) :
    (f.setTable id t).HasTextPaths := by
  intro other n hn
  unfold Forest.setTable at hn
  rw [node?_modify] at hn
  split at hn
  · obtain ⟨old, -, rfl⟩ := Option.map_eq_some_iff.1 hn
    exact ht
  · exact h other n hn

end Forest

theorem Path.isText_of_ofJson? {j : Json} {p : Path} (h : Path.ofJson? j = some p) : p.IsText := by
  obtain ⟨s, -, rfl⟩ := Option.map_eq_some_iff.1 h
  exact isText_ofText s

theorem LinkDefaults.isText_of_ofJson? {depth : Nat} {j : Json} {d : LinkDefaults}
    (h : LinkDefaults.ofJson? depth j = some d) : ∀ p ∈ d.baseDir, p.IsText := by
  unfold LinkDefaults.ofJson? at h
  obtain ⟨values, -, h⟩ := Option.bind_eq_some_iff.1 h
  split at h
  · obtain ⟨dir, hdir, h⟩ := Option.bind_eq_some_iff.1 h
    obtain ⟨stem, -, h⟩ := Option.bind_eq_some_iff.1 h
    obtain ⟨extension, -, h⟩ := Option.bind_eq_some_iff.1 h
    obtain ⟨counter, -, h⟩ := Option.bind_eq_some_iff.1 h
    obtain rfl := Option.some.inj h
    intro p hp
    obtain ⟨v, hv⟩ := Json.exists_of_orElse?_nullable? hdir p hp
    exact Path.isText_of_ofJson? hv
  · cases h

theorem ColumnDocument.isText_of_ofJson? {depth : Nat} {j : Json} {c : ColumnDocument}
    (h : ColumnDocument.ofJson? depth j = some c) : ∀ p ∈ c.paths, p.IsText := by
  unfold ColumnDocument.ofJson? at h
  obtain ⟨values, -, h⟩ := Option.bind_eq_some_iff.1 h
  -- the object is read member by member, and only the link may hold a path
  split at h
  · obtain ⟨name, -, h⟩ := Option.bind_eq_some_iff.1 h
    obtain ⟨kind, -, h⟩ := Option.bind_eq_some_iff.1 h
    obtain ⟨subtype, -, h⟩ := Option.bind_eq_some_iff.1 h
    obtain ⟨link, hlink, h⟩ := Option.bind_eq_some_iff.1 h
    obtain ⟨extra, -, h⟩ := Option.bind_eq_some_iff.1 h
    obtain ⟨cells, -, h⟩ := Option.bind_eq_some_iff.1 h
    obtain rfl := Option.some.inj h
    intro p hp
    obtain ⟨d, hd, hp⟩ := (mem_paths_iff _).1 hp
    obtain ⟨v, hv⟩ := Json.exists_of_orElse?_nullable? hlink d hd
    exact LinkDefaults.isText_of_ofJson? hv p hp
  · cases h

namespace TableDocument

/-- A stored table that was read has text paths, if those below it have. -/
theorem isText_of_ofJson? {children? : Json → Option (List TableDocument)} {depth : Nat} {j : Json}
    {d : TableDocument} (hchildren : ∀ v ds, children? v = some ds → HasTextPaths ds)
    (h : TableDocument.ofJson? children? depth j = some d) :
    (∀ p ∈ d.paths, p.IsText) ∧ HasTextPaths d.children := by
  unfold TableDocument.ofJson? at h
  obtain ⟨values, -, h⟩ := Option.bind_eq_some_iff.1 h
  split at h
  · obtain ⟨name, -, h⟩ := Option.bind_eq_some_iff.1 h
    obtain ⟨workingDir, hdir, h⟩ := Option.bind_eq_some_iff.1 h
    obtain ⟨creation, -, h⟩ := Option.bind_eq_some_iff.1 h
    obtain ⟨linkPolicy, -, h⟩ := Option.bind_eq_some_iff.1 h
    obtain ⟨columns, hcolumns, h⟩ := Option.bind_eq_some_iff.1 h
    obtain ⟨below, hbelow, h⟩ := Option.bind_eq_some_iff.1 h
    obtain rfl := Option.some.inj h
    refine ⟨fun p hp => ?_, ?_⟩
    · rcases List.mem_append.1 hp with hp | hp
      · obtain ⟨v, hv⟩ := Json.exists_of_orElse?_nullable? hdir p (Option.mem_toList.1 hp)
        exact Path.isText_of_ofJson? hv
      · obtain ⟨c, hc, hp⟩ := List.mem_flatMap.1 hp
        -- a column that is there was read
        rcases Json.eq_or_exists_of_orElse? hcolumns with rfl | ⟨v, hv⟩
        · cases hc
        · obtain ⟨w, hw⟩ := Json.exists_of_asArray? hv c hc
          exact ColumnDocument.isText_of_ofJson? hw p hp
    · rcases Json.eq_or_exists_of_orElse? hbelow with rfl | ⟨v, hv⟩
      · exact everywhere_iff.2 nofun
      · exact hchildren v below hv
  · cases h

/-- **All paths in stored tables that were read are texts**, as deep as they stand. -/
theorem hasTextPaths_of_allOfJson? : ∀ {depth : Nat} {j : Json} {ds : List TableDocument},
    allOfJson? depth j = some ds → HasTextPaths ds
  | 0, _, _, h => nomatch h
  | 1, _, _, h => everywhere_iff.2 fun d hd =>
    let ⟨_, hv⟩ := Json.exists_of_asArray? h d hd
    nomatch hv
  | depth + 2, j, ds, h => by
    refine everywhere_iff.2 fun d hd => ?_
    obtain ⟨v, hv⟩ := Json.exists_of_asArray? h d hd
    exact isText_of_ofJson? (fun _ _ hbelow => hasTextPaths_of_allOfJson? hbelow) hv

end TableDocument

namespace TreeDocument

/-- **All paths in a document that was read are texts.** -/
theorem hasTextPaths_of_read {bs : Bytes} {d : TreeDocument} (h : read? bs = some d) :
    TableDocument.HasTextPaths d.tables := by
  obtain ⟨j, -, h⟩ := Option.bind_eq_some_iff.1 h
  unfold TreeDocument.ofJson? at h
  obtain ⟨values, -, h⟩ := Option.bind_eq_some_iff.1 h
  split at h
  · obtain ⟨version, -, h⟩ := Option.bind_eq_some_iff.1 h
    obtain ⟨tables, htables, h⟩ := Option.bind_eq_some_iff.1 h
    obtain rfl := Option.some.inj h
    rcases Json.eq_or_exists_of_orElse? htables with rfl | ⟨v, hv⟩
    · exact TableDocument.everywhere_iff.2 nofun
    · exact TableDocument.hasTextPaths_of_allOfJson? hv
  · cases h

/-- **All paths in a forest that was read are texts.** -/
theorem hasTextPaths_of_toForest {bs : Bytes} {d : TreeDocument} {f : Forest} (hread : read? bs = some d)
    (h : d.toForest = .ok f) : f.HasTextPaths := by
  obtain ⟨hlinked, hbuilds⟩ := represents_of_toForest h
  exact (Forest.hasTextPaths_iff_of_builds hlinked hbuilds).1 (hasTextPaths_of_read hread)

end TreeDocument

end TableForest
