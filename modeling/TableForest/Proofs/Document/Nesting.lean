import TableForest.Proofs.Document.Written
import TableForest.Proofs.Json.Nesting

/-!
# Documents are read back as far as they nest

The bytes of a document are read back exactly if they nest no deeper than the reader goes, and otherwise they are
refused.  No bytes of a document are ever read as another one.

## The architecture

* What a record nests is bounded by what its members nest, so each record has its own least bound.
* **`TableDocument.nesting_allToJson_le`** brings nesting and **`TableDocument.Shallow`** together, by induction on
  the levels of tables.
* **`DocumentFile.read_back_iff_nesting`** says it of bytes.
-/

namespace TableForest

/-! ## Records inside of a table -/

theorem Json.nesting_texts_le (texts : List String) (n : Nat) :
    (Json.array (texts.map .ofString)).nesting ≤ n + 1 := by
  rw [nesting_array_le, List.forall_mem_map]
  exact fun _ _ => Nat.zero_le n

theorem Dict.nesting_toJson_le (d : Dict String) (n : Nat) : d.toJson.nesting ≤ n + 1 := by
  rw [Dict.toJson, Json.nesting_ofMembers_le, List.forall_mem_map]
  exact fun _ _ => Nat.zero_le n

theorem LinkDefaults.nesting_toJson_le (d : LinkDefaults) (n : Nat) : d.toJson.nesting ≤ n + 1 := by
  rw [toJson_eq, Json.nesting_ofFields_le]
  simp [fields, Path.toJson, Json.ofString, Json.ofNat, Json.ofInt, Json.nesting]

theorem LinkPolicy.nesting_toJson_le (p : LinkPolicy) (n : Nat) : p.toJson.nesting ≤ n + 1 := by
  rw [toJson_eq, Json.nesting_ofFields_le]
  simp [fields, Json.ofString, Json.ofNat, Json.ofInt, Json.nesting]

theorem Creation.nesting_toJson_le (c : Creation) (n : Nat) : c.toJson.nesting ≤ n + 2 := by
  rw [toJson_eq, Json.nesting_ofFields_le]
  simp [fields, Json.ofString, Json.nesting, c.parameters.nesting_toJson_le n]

/-- A column is an object with a list of cells in it, and what else it has nests no deeper. -/
theorem ColumnDocument.nesting_toJson_le_iff (c : ColumnDocument) {n : Nat} : c.toJson.nesting ≤ n ↔ 2 ≤ n := by
  constructor
  · intro h
    match n with
    | 0 => exact absurd h (by simp [toJson, Json.ofMembers, Json.nesting])
    | 1 =>
      -- The cells are written even if there are none.
      rw [toJson_eq, Json.nesting_ofFields_le] at h
      have hcells := h ("cells", some (.array (c.cells.map .ofString))) (by simp [fields]) _ rfl
      exact absurd hcells (by simp [Json.nesting])
    | n + 2 => omega
  · intro h
    obtain ⟨m, rfl⟩ : ∃ m, n = m + 2 := ⟨n - 2, by omega⟩
    have hlink : ∀ v ∈ c.link.map LinkDefaults.toJson, v.nesting ≤ m + 1 :=
      Json.nesting_of_mem_map (fun d => d.nesting_toJson_le m) c.link
    have hextra : ∀ v ∈ (if c.extra.isEmpty then none else some c.extra.toJson), v.nesting ≤ m + 1 := by
      split
      · simp
      · simpa using c.extra.nesting_toJson_le m
    have hcells := Json.nesting_texts_le c.cells m
    rw [toJson_eq, Json.nesting_ofFields_le]
    simp only [fields, List.forall_mem_cons]
    refine ⟨?_, ?_, ?_, hlink, hextra, by simpa using hcells, by simp⟩
    all_goals simp [Json.ofString, Json.nesting]

/-! ## Tables -/

namespace TableDocument

/-- Columns are a list of objects with lists of cells in them. -/
theorem nesting_columns_le_iff (columns : List ColumnDocument) {n : Nat} :
    (Json.array (columns.map ColumnDocument.toJson)).nesting ≤ n ↔ (if columns.isEmpty then 1 else 3) ≤ n := by
  cases n with
  | zero => cases columns with
    | nil => simp [Json.nesting]
    | cons c rest => simp [Json.nesting]
  | succ n =>
    rw [Json.nesting_array_le, List.forall_mem_map]
    cases columns with
    | nil => simp
    | cons c rest =>
      have hall : (∀ e ∈ c :: rest, e.toJson.nesting ≤ n) ↔ 2 ≤ n := by
        simp only [ColumnDocument.nesting_toJson_le_iff]
        exact ⟨fun h => h c List.mem_cons_self, fun h _ _ => h⟩
      rw [hall]
      simp

/-- Below a table are the record of how it was made, its columns, and its children. -/
theorem nesting_toJson_le_iff (d : TableDocument) {levels : Nat} :
    d.toJson.nesting ≤ 2 * levels + 1 ↔
      (if d.columns.isEmpty then 1 else 2) ≤ levels ∧
        (d.children ≠ [] → (Json.array (allToJson d.children)).nesting ≤ 2 * levels) := by
  have hcolumns : (Json.array (d.columns.map ColumnDocument.toJson)).nesting ≤ 2 * levels ↔
      (if d.columns.isEmpty then 1 else 2) ≤ levels := by
    rw [nesting_columns_le_iff]
    split <;> omega
  have hchildren : (∀ v ∈ (if d.children.isEmpty then none else some (Json.array (allToJson d.children))),
      v.nesting ≤ 2 * levels) ↔
      (d.children ≠ [] → (Json.array (allToJson d.children)).nesting ≤ 2 * levels) := by
    cases d.children with
    | nil => simp
    | cons e rest => simp
  rw [toJson_eq, Json.nesting_ofFields_le]
  simp only [fields, List.forall_mem_cons, hchildren]
  constructor
  · rintro ⟨-, -, -, -, hcs, hbelow, -⟩
    exact ⟨hcolumns.1 (hcs _ rfl), hbelow⟩
  · rintro ⟨hself, hbelow⟩
    -- Columns take as much as any other record, and they are written even if there are none.
    obtain ⟨k, rfl⟩ : ∃ k, levels = k + 1 := ⟨levels - 1, by split at hself <;> omega⟩
    refine ⟨?_, ?_, ?_, ?_, ?_, hbelow, by simp⟩
    · simp [Json.ofString, Json.nesting]
    · exact Json.nesting_of_mem_map (fun p => by simp [Path.toJson, Json.nesting]) d.workingDir
    · exact Json.nesting_of_mem_map (fun c => c.nesting_toJson_le (2 * k)) d.creation
    · exact Json.nesting_of_mem_map (fun p => p.nesting_toJson_le (2 * k + 1)) d.linkPolicy
    · simpa using hcolumns.2 hself

/-- **Tables nest as deep as the levels they need.** -/
theorem nesting_allToJson_le {levels : Nat} {ds : List TableDocument} (h : levels ≠ 0 ∨ ds ≠ []) :
    (Json.array (allToJson ds)).nesting ≤ 2 * levels ↔ Shallow levels ds := by
  -- every level of tables takes two levels of nesting, an object and an array
  induction levels generalizing ds with
  | zero =>
    have hne : ds ≠ [] := h.resolve_left fun hne => hne rfl
    exact iff_of_false (by simp [Json.nesting]) (not_shallow_zero hne)
  | succ levels ih =>
    rw [shallow_succ, allToJson_eq_map, show 2 * (levels + 1) = 2 * levels + 1 + 1 by omega,
      Json.nesting_array_le, List.forall_mem_map]
    refine forall₂_congr fun d _ => ?_
    rw [nesting_toJson_le_iff]
    refine and_congr_right fun _ => ?_
    -- tables without children have no array inside them, so there is nothing to be shallow
    by_cases hchildren : d.children = []
    · rw [hchildren]
      exact iff_of_true (fun hne => absurd rfl hne) (shallow_nil levels)
    · rw [← ih (.inr hchildren)]
      exact ⟨fun hbelow => hbelow hchildren, fun hbelow _ => hbelow⟩

end TableDocument

/-! ## Documents -/

theorem TreeDocument.nesting_toJson_le_iff (d : TreeDocument) :
    d.toJson.nesting ≤ Json.maxDepth ↔ TableDocument.Shallow levels d.tables := by
  rw [← TableDocument.nesting_allToJson_le (.inl (by decide)), toJson, show Json.maxDepth = 2 * levels + 1 from rfl,
    Json.nesting_ofMembers_le]
  simp [Json.ofNat, Json.ofInt, Json.nesting]

/-- **A document with text paths has bytes, and they are read back exactly if the reader goes as deep as they nest.**
Otherwise they are refused, and in no case another document is read.  Both styles nest alike. -/
theorem DocumentFile.read_back_iff_nesting (d : DocumentFile)
    (hmoments : TableDocument.Regular d.document.tables) (hpaths : TableDocument.HasTextPaths d.document.tables) :
    ∃ n, ∀ style, ∃ bs, d.encode style = .ok bs ∧ Json.nesting? bs = some n ∧
      ((∃ e, ofBytes bs = .ok e ∧ e.document = d.document) ↔ n ≤ Json.maxDepth) ∧
      (Json.maxDepth < n → ofBytes bs = .error .json) ∧
      ∀ e, ofBytes bs = .ok e → e.document = d.document := by
  have hspelled := d.document.spelled_toJson_iff.2 hpaths
  refine ⟨d.document.toJson.nesting, fun style => ⟨d.document.bytes style, encode_of_textPaths hpaths style,
    Json.nesting?_bytes style hspelled, ?_⟩⟩
  have hfits := d.document.nesting_toJson_le_iff
  -- whether the document fits decides all that is claimed, and the nesting of its bytes is known
  by_cases hdeep : d.document.toJson.nesting ≤ Json.maxDepth
  · have hread : ofBytes (d.document.bytes style) = .ok ⟨d.document, none⟩ := by
      rw [ofBytes, TreeDocument.read?_bytes style hmoments hpaths (hfits.1 hdeep)]
    refine ⟨iff_of_true ⟨_, hread, rfl⟩ hdeep, fun hlt => absurd hdeep (Nat.not_le.2 hlt), fun e he => ?_⟩
    obtain rfl := Except.ok.inj (hread.symm.trans he)
    rfl
  · have hread : ofBytes (d.document.bytes style) = .error .json := by
      rw [ofBytes, TreeDocument.read?_bytes_of_not_shallow style hpaths (mt hfits.2 hdeep)]
    refine ⟨iff_of_false ?_ hdeep, fun _ => hread, fun e he => ?_⟩
    · rintro ⟨e, he, -⟩
      rw [hread] at he
      cases he
    · rw [hread] at he
      cases he

/-- Empty tables, each the only child of the one before. -/
def TableDocument.nested : Nat → List TableDocument
  | 0 => []
  | n + 1 => [⟨"t", none, none, none, [], nested n⟩]

/-- A table that was made long ago and has texts that need escapes, with tables nested in it. -/
def DocumentFile.archive (n : Nat) : DocumentFile :=
  ⟨⟨4294967295, [⟨"scan", some (.ofText "/data"),
    some ⟨"scan", .ofList [("device", "7")], ⟨⟨-262143, 2, 28⟩, 0, 1, by decide⟩⟩,
    some ⟨18446744073709551615, "", 0⟩,
    [⟨"label", .text, ⟨"*"⟩, some ⟨none, some "", none, 7⟩, .ofList [("", "mm")], ["\"\\", "\n\t", "é"]⟩],
    TableDocument.nested n⟩]⟩, none⟩

namespace DocumentFile

open TableDocument in
/-- What holds of empty tables holds of all that are nested in one another. -/
theorem everywhere_nested {P : TableDocument → Prop} (h : ∀ children, P ⟨"t", none, none, none, [], children⟩)
    (n : Nat) : Everywhere P (nested n) := by
  induction n with
  | zero => exact everywhere_iff.2 nofun
  | succ n ih =>
    refine everywhere_iff.2 fun d hd => ?_
    obtain rfl := List.mem_singleton.1 hd
    exact ⟨h _, ih⟩

open TableDocument in
theorem everywhere_archive {P : TableDocument → Prop} (h : ∀ children, P ⟨"t", none, none, none, [], children⟩)
    (n : Nat) (hfirst : ∀ d ∈ (archive n).document.tables, P d) : Everywhere P (archive n).document.tables := by
  refine everywhere_iff.2 fun d hd => ⟨hfirst d hd, ?_⟩
  obtain rfl := List.mem_singleton.1 hd
  exact everywhere_nested h n

theorem regular_archive (n : Nat) : TableDocument.Regular (archive n).document.tables := by
  refine everywhere_archive (P := fun d => ∀ c, d.creation = some c → c.created.IsRegular) (fun _ c hc => ?_) n
    fun d hd c hc => ?_
  · cases hc
  · obtain rfl := List.mem_singleton.1 hd
    obtain rfl := Option.some.inj hc
    decide

theorem hasTextPaths_archive (n : Nat) : TableDocument.HasTextPaths (archive n).document.tables := by
  refine everywhere_archive (P := fun d => ∀ p ∈ d.paths, p.IsText) (fun _ p hp => ?_) n fun d hd p hp => ?_
  · cases hp
  · obtain rfl := List.mem_singleton.1 hd
    rcases List.mem_append.1 hp with hp | hp
    · obtain rfl : Path.ofText "/data" = p := Option.some.inj (Option.mem_toList.1 hp)
      exact Path.isText_ofText "/data"
    · cases hp

theorem archive_read_back :
    (∀ n, TableDocument.Regular (archive n).document.tables ∧ TableDocument.HasTextPaths (archive n).document.tables) ∧
      ∀ style, (∃ bs e, (archive 61).encode style = .ok bs ∧ ofBytes bs = .ok e ∧
          e.document = (archive 61).document) ∧
        ∃ bs, (archive 62).encode style = .ok bs ∧ ofBytes bs = .error .json := by
  obtain ⟨n, hread⟩ := read_back_iff_nesting (archive 61) (regular_archive 61) (hasTextPaths_archive 61)
  obtain ⟨m, hrefused⟩ := read_back_iff_nesting (archive 62) (regular_archive 62) (hasTextPaths_archive 62)
  -- the nesting is a number of the document, which is found without going through its bytes
  have hnesting : ∀ k style bs, (archive k).encode style = .ok bs →
      Json.nesting? bs = some (archive k).document.toJson.nesting := by
    intro k style bs hbs
    rw [(encode_eq_ok_iff.1 hbs).2]
    exact Json.nesting?_bytes style ((archive k).document.spelled_toJson_iff.2 (hasTextPaths_archive k))
  refine ⟨fun n => ⟨regular_archive n, hasTextPaths_archive n⟩, fun style => ⟨?_, ?_⟩⟩
  · -- sixty-one levels of tables are just nested deeply enough to be read
    obtain ⟨bs, hbs, hn, hback, -⟩ := hread style
    obtain ⟨e, he, hsame⟩ := hback.2 <| by
      rw [Option.some.inj (hn.symm.trans (hnesting 61 style bs hbs))]
      decide +kernel
    exact ⟨bs, e, hbs, he, hsame⟩
  · -- one more is too deep
    obtain ⟨bs, hbs, hm, -, hdeep, -⟩ := hrefused style
    refine ⟨bs, hbs, hdeep ?_⟩
    rw [Option.some.inj (hm.symm.trans (hnesting 62 style bs hbs))]
    decide +kernel

end DocumentFile
end TableForest
