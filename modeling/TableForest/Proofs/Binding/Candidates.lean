import Mathlib.Data.List.Nodup
import Mathlib.Data.List.ProdSigma
import TableForest.Adapter.Builtin
import TableForest.Binding.Candidate

/-!
# Which candidates are listed

The candidates of a parameter are told by pairs: of a column with a reader, or by a single reader or writer.
They are exactly those of the pairs that fit, in the order of the pairs: by column first and then by
registration.

## The architecture

* **`TagSet.Covers`** and **`ParamSpec.Allows`** spell out what the filters accept; the wildcard counts only in
  the set that accepts.
* **`ParamSpec.ReadsFrom`**, **`ParamSpec.ReadsConstants`** and **`ParamSpec.WritesThrough`** say when something
  fits a parameter.
* **`Registry.NamesApart`** is what registering keeps up: every adapter has a name of its own.
* **`candidates_exactly`**: the list is a filter of all pairs, so nothing is missing, nothing stands twice, and
  nothing is out of order.
-/

namespace TableForest

/-! ## Subtypes -/

/-- The set has no tag, the wildcard, or the tag itself. -/
def TagSet.Covers (s : TagSet) (t : Tag) : Prop :=
  s.tags = [] ∨ Tag.any ∈ s.tags ∨ t ∈ s.tags

instance (s : TagSet) (t : Tag) : Decidable (s.Covers t) :=
  inferInstanceAs (Decidable (_ ∨ _ ∨ _))

theorem TagSet.accepts_iff {s : TagSet} {t : Tag} : s.accepts t = true ↔ s.Covers t := by
  unfold accepts isAny Covers
  simp only [Bool.or_eq_true, List.isEmpty_iff, List.any_eq_true, Tag.accepts, Tag.isAny, decide_eq_true_eq]
  constructor
  · rintro ((hnil | ⟨_, hany, rfl⟩) | ⟨u, hu, rfl | rfl⟩)
    · exact .inl hnil
    · exact .inr (.inl hany)
    · exact .inr (.inl hu)
    · exact .inr (.inr hu)
  · rintro (hnil | hany | ht)
    · exact .inl (.inl hnil)
    · exact .inl (.inr ⟨_, hany, rfl⟩)
    · exact .inr ⟨t, ht, .inr rfl⟩

/-- A set that covers the wildcard covers everything. -/
theorem TagSet.Covers.of_any {s : TagSet} (h : s.Covers .any) : s.tags = [] ∨ Tag.any ∈ s.tags :=
  h.imp id fun hany => hany.elim id id

/-- **Constants for a reader have a subtype that the reader takes.** -/
theorem ReaderInfo.covers_constantSubtype (r : ReaderInfo) : r.subtypes.Covers r.constantSubtype := by
  unfold constantSubtype
  cases hfind : r.subtypes.tags.find? (!·.isAny) with
  | some t => exact .inr (.inr (List.mem_of_find?_eq_some hfind))
  | none =>
    -- Without a tag of its own the set is empty or has nothing but wildcards.
    cases htags : r.subtypes.tags with
    | nil => exact .inl htags
    | cons t rest =>
      have hany : t = .any := by simpa [htags, Tag.isAny] using List.find?_eq_none.1 hfind t (by simp [htags])
      exact .inr (.inl (by rw [htags, hany]; exact List.mem_cons_self))

/-! ## What fits a parameter -/

/-- The parameter can be bound to data of a kind and a subtype. -/
def ParamSpec.Allows (p : ParamSpec) (kind : Kind) (subtype : Tag) : Prop :=
  (p.kind = none ∨ p.kind = some kind) ∧ p.subtypes.Covers subtype

instance (p : ParamSpec) (kind : Kind) (subtype : Tag) : Decidable (p.Allows kind subtype) :=
  inferInstanceAs (Decidable (_ ∧ _))

theorem ParamSpec.admits_iff {p : ParamSpec} {kind : Kind} {subtype : Tag} :
    p.admits kind subtype = true ↔ p.Allows kind subtype := by
  unfold admits Allows
  rw [Bool.and_eq_true, TagSet.accepts_iff]
  cases p.kind with
  | none => simp
  | some k => simp

/-- An input can be read from a column through a reader. -/
structure ParamSpec.ReadsFrom (p : ParamSpec) (column : ColumnInfo) (r : ReaderInfo) : Prop where
  allows : p.Allows column.kind column.subtype
  kind : r.kind = column.kind
  subtypes : r.subtypes.Covers column.subtype
  type : r.type = p.type

/-- An input can be read from constants through a reader. -/
structure ParamSpec.ReadsConstants (p : ParamSpec) (config : ResolverConfig) (r : ReaderInfo) : Prop where
  offered : config.offerConstants = true
  shown : r.isHidden = false ∨ config.includeHiddenConstants = true
  allows : p.Allows r.kind r.constantSubtype
  type : r.type = p.type

/-- An output can be written into a new column through a writer. -/
structure ParamSpec.WritesThrough (p : ParamSpec) (w : WriterInfo) : Prop where
  allows : p.Allows w.kind w.subtype
  type : w.type = p.type

namespace ParamSpec

variable {p : ParamSpec}

/-- The filters that a column and a reader pass. -/
theorem readsFrom_iff {column : ColumnInfo} {r : ReaderInfo} :
    p.ReadsFrom column r ↔ p.admits column.kind column.subtype = true ∧
      r.accepts column.kind column.subtype = true ∧ r.type = p.type := by
  rw [admits_iff, ReaderInfo.accepts, Bool.and_eq_true, decide_eq_true_eq, TagSet.accepts_iff]
  constructor
  · rintro ⟨hallows, hkind, hsubtypes, htype⟩
    exact ⟨hallows, ⟨hkind, hsubtypes⟩, htype⟩
  · rintro ⟨hallows, ⟨hkind, hsubtypes⟩, htype⟩
    exact ⟨hallows, hkind, hsubtypes, htype⟩

theorem readsConstants_iff {config : ResolverConfig} {r : ReaderInfo} :
    p.ReadsConstants config r ↔ config.offerConstants = true ∧
      ((!r.isHidden || config.includeHiddenConstants) = true ∧ p.admits r.kind r.constantSubtype = true) ∧
        r.type = p.type := by
  rw [admits_iff, Bool.or_eq_true, Bool.not_eq_true']
  constructor
  · rintro ⟨hoffered, hshown, hallows, htype⟩
    exact ⟨hoffered, ⟨hshown, hallows⟩, htype⟩
  · rintro ⟨hoffered, ⟨hshown, hallows⟩, htype⟩
    exact ⟨hoffered, hshown, hallows, htype⟩

theorem writesThrough_iff {w : WriterInfo} :
    p.WritesThrough w ↔ p.admits w.kind w.subtype = true ∧ w.type = p.type := by
  rw [admits_iff]
  exact ⟨fun h => ⟨h.allows, h.type⟩, fun h => ⟨h.1, h.2⟩⟩

instance (column : ColumnInfo) (r : ReaderInfo) : Decidable (p.ReadsFrom column r) :=
  decidable_of_iff' _ readsFrom_iff

instance (config : ResolverConfig) (r : ReaderInfo) : Decidable (p.ReadsConstants config r) :=
  decidable_of_iff' _ readsConstants_iff

instance (w : WriterInfo) : Decidable (p.WritesThrough w) :=
  decidable_of_iff' _ writesThrough_iff

end ParamSpec

/-! ## The list -/

/-- The candidates of an input: the pairs of a column and a reader that fit, and then the readers whose constants
do. -/
def ParamSpec.inputChoices (p : ParamSpec) (registry : Registry) (config : ResolverConfig) (t : Table) :
    List Candidate :=
  (((t.columns.zipIdx ×ˢ registry.readers).filter fun x => p.ReadsFrom x.1.1.info x.2.info).map fun x =>
      .column x.1.2 x.1.1.info.name x.2) ++
    (registry.readers.filter fun r => p.ReadsConstants config r.info).map .constant

/-- The candidates of an output: the writers that fit, each with the place for its files if it writes any. -/
def ParamSpec.outputChoices (p : ParamSpec) (registry : Registry) : List Candidate :=
  (registry.writers.filter fun w => p.WritesThrough w.info).map fun w =>
    .newColumn w (if w.info.kind = .fileLink then some ⟨.ofText p.name, p.name, w.info.linkExtension⟩ else none)

theorem columnCandidates_eq (registry : Registry) (p : ParamSpec) (columns : List Column) (index : Nat) :
    columnCandidates registry p index columns =
      ((columns.zipIdx index ×ˢ registry.readers).filter fun x => p.ReadsFrom x.1.1.info x.2.info).map fun x =>
        .column x.1.2 x.1.1.info.name x.2 := by
  induction columns generalizing index with
  | nil => rfl
  | cons c rest ih =>
    -- The first column stands with all readers before the pairs of the others.
    rw [columnCandidates, ih, List.zipIdx_cons, List.product_cons, List.filter_append, List.map_append,
      List.filter_map, List.map_map, Registry.readersFor, List.filter_filter]
    congr 1
    split
    · rename_i hadmits
      have hfilter : (registry.readers.filter fun r =>
            decide (r.info.type = p.type) && r.info.accepts c.info.kind c.info.subtype) =
          registry.readers.filter fun r => p.ReadsFrom c.info r.info := by
        refine List.filter_congr fun r _ => ?_
        rw [Bool.eq_iff_iff]
        simp [ParamSpec.readsFrom_iff, hadmits, and_comm]
      rw [hfilter]
      rfl
    · rename_i hrefuses
      have hfilter : (registry.readers.filter fun r => p.ReadsFrom c.info r.info) = [] := by
        rw [List.filter_eq_nil_iff]
        intro r _ hreads
        exact hrefuses (ParamSpec.readsFrom_iff.1 (of_decide_eq_true hreads)).1
      show [] = List.map _ (registry.readers.filter fun r => p.ReadsFrom c.info r.info)
      rw [hfilter]
      rfl

theorem constantCandidates_eq (registry : Registry) (config : ResolverConfig) (p : ParamSpec) :
    constantCandidates registry config p =
      (registry.readers.filter fun r => p.ReadsConstants config r.info).map .constant := by
  unfold constantCandidates Registry.readersProducing
  rw [List.filter_filter]
  split
  · rename_i hoffered
    congr 1
    refine List.filter_congr fun r _ => ?_
    rw [Bool.eq_iff_iff]
    simp [ParamSpec.readsConstants_iff, hoffered]
  · -- without an offer no reader gives constants, so the filter is empty as well
    rename_i hoffered
    have hfilter : (registry.readers.filter fun r => p.ReadsConstants config r.info) = [] := by
      rw [List.filter_eq_nil_iff]
      intro r _ hreads
      exact hoffered (of_decide_eq_true hreads).offered
    rw [hfilter]
    rfl

theorem outputCandidates_eq (registry : Registry) (p : ParamSpec) :
    outputCandidates registry p = p.outputChoices registry := by
  unfold outputCandidates Registry.writersConsuming ParamSpec.outputChoices
  rw [List.filter_filter]
  congr 1
  refine List.filter_congr fun w _ => ?_
  rw [Bool.eq_iff_iff]
  simp [ParamSpec.writesThrough_iff]

/-! ## Single candidates -/

variable {registry : Registry} {config : ResolverConfig} {t : Table} {p : ParamSpec}

theorem candidates_of_input (h : p.direction = .input) :
    candidates registry config t p = p.inputChoices registry config t := by
  unfold candidates ParamSpec.inputChoices
  rw [h, ← columnCandidates_eq, ← constantCandidates_eq]

theorem candidates_of_output (h : p.direction = .output) :
    candidates registry config t p = p.outputChoices registry := by
  unfold candidates
  rw [h, ← outputCandidates_eq]

/-- A column is a candidate for an input, through any reader that fits both. -/
theorem column_mem_candidates {i : Nat} {name : String} {r : Reader} :
    .column i name r ∈ candidates registry config t p ↔
      p.direction = .input ∧ r ∈ registry.readers ∧
        ∃ c, t.columns[i]? = some c ∧ c.info.name = name ∧ p.ReadsFrom c.info r.info := by
  cases hdirection : p.direction with
  | output => simp [candidates_of_output hdirection, ParamSpec.outputChoices]
  | input =>
    rw [candidates_of_input hdirection, ParamSpec.inputChoices, List.mem_append]
    constructor
    · -- the column half of the list, and then the half of the constants, which has no columns
      rintro (h | h)
      · obtain ⟨⟨⟨c, j⟩, r'⟩, hx, heq⟩ := List.mem_map.1 h
        cases heq
        obtain ⟨hpair, hreads⟩ := List.mem_filter.1 hx
        obtain ⟨hc, hr⟩ := List.mem_product.1 hpair
        exact ⟨rfl, hr, c, List.mem_zipIdx_iff_getElem?.1 hc, rfl, of_decide_eq_true hreads⟩
      · obtain ⟨r', -, heq⟩ := List.mem_map.1 h
        cases heq
    · rintro ⟨-, hr, c, hc, rfl, hreads⟩
      have hpair : ((c, i), r) ∈ t.columns.zipIdx ×ˢ registry.readers :=
        List.mem_product.2 ⟨List.mem_zipIdx_iff_getElem?.2 hc, hr⟩
      exact .inl (List.mem_map.2 ⟨((c, i), r), List.mem_filter.2 ⟨hpair, decide_eq_true hreads⟩, rfl⟩)

/-- Constants are candidates for an input, through any reader that fits it. -/
theorem constant_mem_candidates {r : Reader} :
    .constant r ∈ candidates registry config t p ↔
      p.direction = .input ∧ r ∈ registry.readers ∧ p.ReadsConstants config r.info := by
  cases hdirection : p.direction with
  | output => simp [candidates_of_output hdirection, ParamSpec.outputChoices]
  | input => simp [candidates_of_input hdirection, ParamSpec.inputChoices]

/-- New columns are candidates for an output, through any writer that fits it. -/
theorem newColumn_mem_candidates {w : Writer} {link : Option LinkTemplate} :
    .newColumn w link ∈ candidates registry config t p ↔
      p.direction = .output ∧ w ∈ registry.writers ∧ p.WritesThrough w.info ∧ link = linkTemplateFor w.info p := by
  cases hdirection : p.direction with
  | input => simp [candidates_of_input hdirection, ParamSpec.inputChoices]
  | output =>
    simp only [candidates_of_output hdirection, ParamSpec.outputChoices, List.mem_map, List.mem_filter,
      decide_eq_true_eq, Candidate.newColumn.injEq, true_and]
    constructor
    · rintro ⟨w', ⟨hw, hwrites⟩, rfl, rfl⟩
      exact ⟨hw, hwrites, rfl⟩
    · rintro ⟨hw, hwrites, rfl⟩
      exact ⟨w, ⟨hw, hwrites⟩, rfl, rfl⟩

/-! ## No repetitions -/

namespace Registry

/-- No two readers have one name, and no two writers. -/
structure NamesApart (r : Registry) : Prop where
  readers : (r.readers.map (·.info.name)).Nodup
  writers : (r.writers.map (·.info.name)).Nodup

/-- A name that is taken stays where it is, and a new one goes to the end. -/
theorem map_place {α : Type} (name : α → String) (x : α) (xs : List α) :
    (place name x xs).map name =
      if name x ∈ xs.map name then xs.map name else xs.map name ++ [name x] := by
  induction xs with
  | nil => rfl
  | cons y rest ih =>
    unfold place
    by_cases hy : name y = name x
    · simp [hy]
    · simp only [hy, if_false, List.map_cons, ih, List.mem_cons, Ne.symm hy, false_or]
      split <;> rfl

theorem nodup_map_place {α : Type} {name : α → String} {xs : List α} (h : (xs.map name).Nodup) (x : α) :
    ((place name x xs).map name).Nodup := by
  rw [map_place]
  split
  · exact h
  · rename_i hnew
    refine List.nodup_append.2 ⟨h, List.nodup_singleton _, fun a ha b hb heq => ?_⟩
    obtain rfl := List.mem_singleton.1 hb
    exact hnew (heq ▸ ha)

namespace NamesApart

theorem empty : Registry.empty.NamesApart where
  readers := List.nodup_nil
  writers := List.nodup_nil

theorem registerReader {r : Registry} (h : r.NamesApart) (x : Reader) : (r.registerReader x).NamesApart where
  readers := nodup_map_place h.readers x
  writers := h.writers

theorem registerWriter {r : Registry} (h : r.NamesApart) (x : Writer) : (r.registerWriter x).NamesApart where
  readers := h.readers
  writers := nodup_map_place h.writers x

/-- However many adapters are registered, and under whatever names. -/
theorem foldl {r : Registry} (h : r.NamesApart) (readers : List Reader) (writers : List Writer) :
    (writers.foldl Registry.registerWriter (readers.foldl Registry.registerReader r)).NamesApart := by
  have hreaders : (readers.foldl Registry.registerReader r).NamesApart :=
    List.foldlRecOn readers _ h fun _ hr x _ => hr.registerReader x
  exact List.foldlRecOn writers _ hreaders fun _ hr x _ => hr.registerWriter x

theorem builtin : Registry.builtin.NamesApart :=
  NamesApart.empty.foldl Builtin.readers Builtin.writers

end NamesApart
end Registry

/-- A column and a reader make one candidate, and no other pair makes it too. -/
theorem nodup_inputChoices (h : registry.NamesApart) : (p.inputChoices registry config t).Nodup := by
  have hreaders : registry.readers.Nodup := h.readers.of_map _
  have hcolumns : t.columns.zipIdx.Nodup := List.Nodup.of_map Prod.snd (by simp [List.nodup_range'])
  refine List.nodup_append.2 ⟨?_, ?_, ?_⟩
  · refine List.Nodup.map_on ?_ ((hcolumns.product hreaders).filter _)
    rintro ⟨⟨c, i⟩, r⟩ hx ⟨⟨d, j⟩, r'⟩ hy heq
    obtain ⟨rfl, -, rfl⟩ := Candidate.column.inj heq
    -- a position has one column
    have hc := (List.mem_product.1 (List.mem_filter.1 hx).1).1
    have hd := (List.mem_product.1 (List.mem_filter.1 hy).1).1
    rw [List.mem_zipIdx_iff_getElem?] at hc hd
    obtain rfl := Option.some.inj (hc.symm.trans hd)
    rfl
  · exact (hreaders.filter _).map fun _ _ heq => Candidate.constant.inj heq
  · -- columns and constants are told apart
    intro c hc d hd heq
    obtain ⟨x, -, rfl⟩ := List.mem_map.1 hc
    obtain ⟨r, -, rfl⟩ := List.mem_map.1 hd
    cases heq

theorem nodup_outputChoices (h : registry.NamesApart) : (p.outputChoices registry).Nodup :=
  ((h.writers.of_map _).filter _).map fun _ _ heq => (Candidate.newColumn.inj heq).1

/-- **The candidates of a parameter are exactly what fits it, in order.**  For an input these are the pairs of a
column and a reader that fit, by column and then by registration, and behind them the readers whose constants fit;
for an output they are the writers that fit, by registration.  Every reader takes the subtype of its constants.  A
column of the wildcard subtype is a candidate only where any subtype would be.  As the names of adapters are kept
apart, no candidate stands twice. -/
theorem candidates_exactly (registry : Registry) (config : ResolverConfig) (t : Table) (p : ParamSpec) :
    (candidates registry config t p =
      match p.direction with
      | .input => p.inputChoices registry config t
      | .output => p.outputChoices registry) ∧
    (∀ r : ReaderInfo, r.subtypes.Covers r.constantSubtype) ∧
    (∀ i name r c, .column i name r ∈ candidates registry config t p → t.columns[i]? = some c →
      c.info.subtype = .any →
        (p.subtypes.tags = [] ∨ Tag.any ∈ p.subtypes.tags) ∧
          (r.info.subtypes.tags = [] ∨ Tag.any ∈ r.info.subtypes.tags)) ∧
    (registry.NamesApart → (candidates registry config t p).Nodup) := by
  refine ⟨?_, ReaderInfo.covers_constantSubtype, fun i name r c hmem hc hany => ?_, fun hapart => ?_⟩
  · cases hdirection : p.direction with
    | input => exact candidates_of_input hdirection
    | output => exact candidates_of_output hdirection
  · -- a column that is listed fits the parameter and the reader, and both would take the wildcard
    obtain ⟨-, -, d, hd, -, hreads⟩ := column_mem_candidates.1 hmem
    obtain rfl := Option.some.inj (hc.symm.trans hd)
    have hparam := hreads.allows.2
    have hreader := hreads.subtypes
    rw [hany] at hparam hreader
    exact ⟨hparam.of_any, hreader.of_any⟩
  · cases hdirection : p.direction with
    | input =>
      rw [candidates_of_input hdirection]
      exact nodup_inputChoices hapart
    | output =>
      rw [candidates_of_output hdirection]
      exact nodup_outputChoices hapart

/-! ## Texts -/

namespace Texts

/-- A column of texts, and two of links to files: of plain texts, and of anything. -/
def source : Table :=
  { Table.empty "texts" with
    columns := [⟨.ofKind "note" .text, []⟩,
      ⟨{ ColumnInfo.ofKind "report" .fileLink with subtype := ⟨"text/plain"⟩ }, []⟩,
      ⟨{ ColumnInfo.ofKind "scratch" .fileLink with subtype := .any }, []⟩] }

def param : ParamSpec := ⟨"s", none, .input, .string, none, .any, true⟩

end Texts

open Texts in
theorem texts_candidates :
    (candidates .builtin .standard source param).map Candidate.describe =
        ["column \"note\" via text", "column \"report\" via text-file", "constant text via text",
          "constant file-link via text-file"] ∧
      (candidates .builtin .standard source param).Nodup ∧
      ∀ r : ReaderInfo, r.subtypes.Covers r.constantSubtype := by
  obtain ⟨-, hconstants, -, hnodup⟩ := candidates_exactly .builtin .standard source param
  exact ⟨by decide, hnodup .builtin, hconstants⟩

end TableForest
