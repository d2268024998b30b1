import TableForest.Proofs.Binding.Frame
import TableForest.Proofs.Binding.Writing
import TableForest.Proofs.Files.Names
import TableForest.Proofs.Files.TextPath

/-!
# Files that a run writes

A run may write files for its outputs, one for each linked cell of the result.  Each is written under a link that
led to nothing when it was made, so that what was there before the run is there after it.  That is so as long as
the directories that are made for a file do not change where its path leads.

## The architecture

* **`writeAt_fills`** says what becomes of one cell: it stays unlinked, or it links a file that is new, or nothing
  but directories is made.
* **`Table.LinksNewFiles`** is what is known of the linked cells of a table, and **`Bindings.Filling`** the
  invariant of a run: the cells that are still to be filled link nothing.
* **`execute_spares_files`** reads it off at the end of a run.  Its condition is **`FileSystem.Anchored`**, on the
  first link of each output; **`execute_overwrites`** is a run without it.
-/

namespace TableForest

/-! ## Writers -/

theorem mem_writers_of_builtin {w : Writer} (h : w ∈ Registry.builtin.writers) : w ∈ Builtin.writers :=
  h

/-- Plain writers leave all files alone. -/
theorem Writer.IsPlain.files_write {w : Writer} (hw : w.IsPlain) (x : Item) (c : Cell) (context : PathContext)
    (fs : FileSystem) : (w.write x c context fs).2 = fs := by
  obtain ⟨hmem, hfile⟩ := hw
  have hconvert : ∀ v, (w.convert v c context fs).2 = fs := by
    simp only [Builtin.writers, List.mem_cons, List.not_mem_nil, or_false] at hmem
    rcases hmem with rfl | rfl | rfl | rfl | rfl | rfl
    case inr.inr.inr.inr.inr => exact absurd rfl hfile
    all_goals exact fun _ => rfl
  unfold Writer.write
  split
  · rfl
  · split
    · exact hconvert _
    · rfl

theorem Cell.kind_of_link? {c : Cell} {link : String} (h : c.link? = some link) : c.kind = .fileLink := by
  unfold Cell.link? Value.asLink? at h
  unfold Cell.kind
  split at h
  · rename_i s hs
    rw [hs]
    rfl
  · cases h

theorem Cell.link?_linkCell {info : ColumnInfo} {p : Path} {link : String}
    (h : (Table.linkCell info p).link? = some link) : link = p.text := by
  unfold Cell.link? Table.linkCell Value.asLink? at h
  simp only at h
  split at h
  · cases h
  · exact (Option.some.inj h).symm

/-- What comes of writing an item to the file of a cell: a file is made, or nothing but directories. -/
inductive WritesFile (c : Cell) (context : PathContext) (fs : FileSystem) :
    Except BindingError Cell × FileSystem → Prop
  | refused {e : BindingError} {g : FileSystem} (adds : fs.AddsDirectories g) : WritesFile c context fs (.error e, g)
  | written {g : FileSystem} {link : String} {l : Location} {content : Bytes} (linked : c.link? = some link)
      (adds : fs.AddsFile g (context.resolve (.ofText link)) l content) : WritesFile c context fs (.ok c, g)

theorem writesFile_writeTextFile {c : Cell} {context : PathContext} {fs : FileSystem} (hfs : fs.WellFormed)
    (hfree : ∀ link, c.link? = some link →
      fs.Anchored (context.resolve (.ofText link)) ∧ fs.pathExists (context.resolve (.ofText link)) = false) (s : String) :
    WritesFile c context fs (Builtin.writeTextFile s c context fs) := by
  unfold Builtin.writeTextFile Builtin.link
  cases hlink : c.link? with
  | none => exact .refused (.refl fs)
  | some link =>
    obtain ⟨hanchored, hnone⟩ := hfree link hlink
    rcases FileSystem.writeWithParents_cases hfs hanchored hnone (Utf8.encode s) with
      ⟨e, g, hwrite, hadds⟩ | ⟨g, l, hwrite, hadds⟩
    · simp only [hwrite]
      exact .refused hadds
    · simp only [hwrite]
      exact .written hlink hadds

/-- A built-in writer of file links makes a file for a link that leads to nothing, or nothing but directories. -/
theorem Writer.writesFile {w : Writer} (hw : w ∈ Builtin.writers) (hfile : w.info.kind = .fileLink) {c : Cell}
    (hkind : c.kind = .fileLink) {context : PathContext} {fs : FileSystem} (hfs : fs.WellFormed)
    (hfree : ∀ link, c.link? = some link →
      fs.Anchored (context.resolve (.ofText link)) ∧ fs.pathExists (context.resolve (.ofText link)) = false) (x : Item) :
    WritesFile c context fs (w.write x c context fs) := by
  have hconvert : ∀ v, WritesFile c context fs (w.convert v c context fs) := by
    simp only [Builtin.writers, List.mem_cons, List.not_mem_nil, or_false] at hw
    rcases hw with rfl | rfl | rfl | rfl | rfl | rfl
    case inr.inr.inr.inr.inr => exact fun s => writesFile_writeTextFile hfs hfree s
    all_goals cases hfile
  unfold Writer.write checkKind
  rw [if_pos (hkind.trans hfile.symm)]
  simp only
  split
  · exact hconvert _
  · exact .refused (.refl fs)

/-! ## One cell -/

namespace Table

variable {t t' : Table}

/-- A cell is replaced, and what paths start from stays. -/
structure Replaces (t t' : Table) (column row : Nat) (c : Cell) : Prop where
  workingDir : t'.workingDir = t.workingDir
  here : t'.cell column row = .ok c
  others : ∀ {i r d}, i ≠ column ∨ r ≠ row → t'.cell i r = .ok d → t.cell i r = .ok d

theorem replaces_putCell {column row : Nat} {old : Cell} (h : t.cell column row = .ok old) (c : Cell) :
    t.Replaces (t.putCell column row c) column row c where
  workingDir := rfl
  here := cell_putCell_self h c
  others := by
    intro i r d hne hd
    obtain ⟨col, hcol, hrow, hcell⟩ := cell_eq_ok.1 hd
    rw [getElem?_putCell] at hcol
    split at hcol
    · rename_i hi
      obtain ⟨col', hcol', rfl⟩ := Option.map_eq_some_iff.1 hcol
      -- in the same column it is another row
      have hr : row ≠ r := by
        rintro rfl
        rcases hne with hne | hne
        · exact hne hi
        · exact hne rfl
      rw [List.getElem?_set_ne hr] at hcell
      exact cell_eq_ok.2 ⟨col', hcol', hrow, hcell⟩
    · exact cell_eq_ok.2 ⟨col, hcol, hrow, hcell⟩

theorem cell_setCounter (column : Nat) (counter : UInt32) (i r : Nat) (c : Cell) :
    (t.setCounter column counter).cell i r = .ok c ↔ t.cell i r = .ok c := by
  have hrows : (t.setCounter column counter).rows = t.rows := rfl
  rw [cell_eq_ok, cell_eq_ok, getElem?_setCounter, hrows]
  by_cases hi : i = column
  · cases t.columns[i]? <;> simp [hi]
  · rw [if_neg hi]

theorem Replaces.setCounter {column row : Nat} {c : Cell} (h : t.Replaces t' column row c) (index : Nat)
    (counter : UInt32) : t.Replaces (t'.setCounter index counter) column row c where
  workingDir := h.workingDir
  here := (cell_setCounter ..).2 h.here
  others := fun hne hd => h.others hne ((cell_setCounter ..).1 hd)

end Table

/-- A cell is filled: it links nothing and the files stay, or it links a file that is new. -/
inductive FillsCell (t : Table) (fs : FileSystem) : Cell → FileSystem → Prop
  | plain {c : Cell} (unlinked : c.link? = none) : FillsCell t fs c fs
  | file {c : Cell} {link : String} {g : FileSystem} {l : Location} {content : Bytes} (linked : c.link? = some link)
      (adds : fs.AddsFile g (t.resolve (.ofText link)) l content) : FillsCell t fs c g

/-- What becomes of a cell that an item is written into. -/
inductive WritesCell (t : Table) (fs : FileSystem) (column row : Nat) :
    Except BindingError Unit × Table × FileSystem → Prop
  | refused {e : BindingError} {t' : Table} {g : FileSystem} (adds : fs.AddsDirectories g) :
      WritesCell t fs column row (.error e, t', g)
  | filled {t' : Table} {g : FileSystem} {c : Cell} (replaces : t.Replaces t' column row c)
      (fills : FillsCell t fs c g) : WritesCell t fs column row (.ok (), t', g)

/-- A plain writer fills a cell and leaves all files alone. -/
theorem Writer.IsPlain.writesCell {w : Writer} (hw : w.IsPlain) {t : Table} {fs : FileSystem} {column row : Nat}
    (hkind : ∀ col, t.columns[column]? = some col → col.info.kind = w.info.kind) (x : Item) :
    WritesCell t fs column row (w.writeAt t fs column row x) := by
  unfold Writer.writeAt
  rw [if_neg hw.2]
  unfold Table.updateCell
  split
  · exact .refused (.refl fs)
  · rename_i col c hplace
    obtain ⟨hcol, hrow, hcell⟩ := Table.place_eq_ok hplace
    -- a writer without files leaves them alone, whatever it answers
    have hfiles := hw.files_write x c t.pathContext fs
    rcases Table.commitCell_cases t col.info column row .table (w.write x c t.pathContext fs).1 with
      ⟨e, hcommit⟩ | ⟨d, -, hd, hcommit⟩
    · simp only [hcommit, hfiles]
      exact .refused (.refl fs)
    · simp only [hcommit, hfiles]
      refine .filled (Table.replaces_putCell (Table.cell_eq_ok.2 ⟨col, hcol, hrow, hcell⟩) d) (.plain ?_)
      cases hlink : d.link? with
      -- a cell that is no link to a file links nothing
      | none => rfl
      | some link =>
        have hfile := Cell.kind_of_link? hlink
        exact absurd ((hkind col hcol).symm.trans (hd.symm.trans hfile)) hw.2

/-- **The writer of text files fills an unlinked cell with a link to a new file**, if the links of the column are
texts and anchored. -/
theorem writesCell_textFile {w : Writer} (hw : w ∈ Builtin.writers) (hfile : w.info.kind = .fileLink) {t : Table}
    {fs : FileSystem} (hfs : fs.WellFormed) {column row : Nat}
    (hkind : ∀ col, t.columns[column]? = some col → col.info.kind = w.info.kind)
    (hlinks : ∀ col k link, t.columns[column]? = some col → (t.linkNaming col.info).link? k = some link →
      link.IsText ∧ fs.Anchored (t.resolve link))
    (hblank : ∀ c, t.cell column row = .ok c → c.link? = none) (x : Item) :
    WritesCell t fs column row (w.writeAt t fs column row x) := by
  unfold Writer.writeAt
  rw [if_pos hfile]
  unfold Table.updateLinkedCell
  split
  · exact .refused (.refl fs)
  rename_i col c hplace
  obtain ⟨hcol, hrow, hcell⟩ := Table.place_eq_ok hplace
  have hold := Table.cell_eq_ok.2 ⟨col, hcol, hrow, hcell⟩
  have hcolumn : col.info.kind = .fileLink := (hkind col hcol).trans hfile
  rw [if_neg (by simp [hcolumn, hblank c hold])]
  split
  · exact .refused (.refl fs)
  rename_i link counter hnext
  obtain ⟨found, -, hlink, -, hfree⟩ := Table.nextLink_eq_ok hnext
  -- The writer gets the cell with the new link, which leads to nothing yet.
  have hnew : ∀ s, (Table.linkCell col.info link).link? = some s →
      fs.Anchored (t.pathContext.resolve (.ofText s)) ∧ fs.pathExists (t.pathContext.resolve (.ofText s)) = false := by
    intro s hs
    obtain ⟨htext, hanchored⟩ := hlinks col found link hcol hlink
    rw [Cell.link?_linkCell hs, Path.ofText_text_iff.2 htext]
    exact ⟨hanchored, hfree⟩
  have hkind : (Table.linkCell col.info link).kind = .fileLink := rfl
  have hwrites := Writer.writesFile hw hfile hkind hfs hnew x
  dsimp only
  generalize w.write x (Table.linkCell col.info link) t.pathContext fs = answer at hwrites ⊢
  cases hwrites with
  | refused hadds => exact .refused hadds
  | written hlinked hadds =>
    have hfits : Table.checkCell col.info (some row) (Table.linkCell col.info link) = .ok () :=
      Table.checkCell_eq_ok.2 ⟨hcolumn.symm, rfl⟩
    simp only [Table.commitCell, hfits]
    exact .filled ((Table.replaces_putCell hold _).setCounter column counter) (.file hlinked hadds)

/-! ## All cells of a table -/

/-- Every linked cell has a file, which was not there at first, and no two have one file. -/
structure Table.LinksNewFiles (t : Table) (first fs : FileSystem) : Prop where
  new : ∀ {i r c link}, t.cell i r = .ok c → c.link? = some link →
    ∃ l content, fs.locate (t.resolve (.ofText link)) = .ok l ∧ fs.node? l = some (.file content) ∧ first.node? l = none
  apart : ∀ {i r c link j q d other l}, t.cell i r = .ok c → c.link? = some link → t.cell j q = .ok d →
    d.link? = some other → fs.locate (t.resolve (.ofText link)) = .ok l → fs.locate (t.resolve (.ofText other)) = .ok l →
    i = j ∧ r = q

theorem Table.resolve_of_workingDir_eq {t t' : Table} (h : t'.workingDir = t.workingDir) (p : Path) :
    t'.resolve p = t.resolve p := by
  unfold Table.resolve Table.pathContext
  rw [h]

/-- **A cell more that is filled**: the file of a new link is not that of another cell, which was there before. -/
theorem Table.LinksNewFiles.step {t t' : Table} {first fs g : FileSystem} {column row : Nat} {c : Cell}
    (h : t.LinksNewFiles first fs) (hkeeps : first.Keeps fs) (hreplaces : t.Replaces t' column row c)
    (hfills : FillsCell t fs c g) : t'.LinksNewFiles first g := by
  have hresolve := Table.resolve_of_workingDir_eq hreplaces.workingDir
  have hg : fs.Keeps g := by
    cases hfills with
    | plain => exact .refl fs
    | file _ hadds => exact hadds.keeps
  -- A linked cell of the new table is the new one, or it is a cell of the old table and has its file still.
  have hcell : ∀ {i r d link}, t'.cell i r = .ok d → d.link? = some link →
      (i = column ∧ r = row ∧ ∃ l content, fs.AddsFile g (t.resolve (.ofText link)) l content) ∨
      (t.cell i r = .ok d ∧ ∃ l content, fs.locate (t.resolve (.ofText link)) = .ok l ∧ fs.node? l = some (.file content) ∧
        first.node? l = none) := by
    intro i r d link hd hlink
    by_cases hplace : i = column ∧ r = row
    · obtain ⟨rfl, rfl⟩ := hplace
      obtain rfl := Except.ok.inj (hd.symm.trans hreplaces.here)
      cases hfills with
      | plain hunlinked =>
        rw [hunlinked] at hlink
        cases hlink
      | file hlinked hadds =>
        obtain rfl := Option.some.inj (hlinked.symm.trans hlink)
        exact .inl ⟨rfl, rfl, _, _, hadds⟩
    · rw [not_and_or] at hplace
      have hold := hreplaces.others hplace hd
      exact .inr ⟨hold, h.new hold hlink⟩
  constructor
  · intro i r d link hd hlink
    rw [hresolve]
    rcases hcell hd hlink with ⟨-, -, l, content, hadds⟩ | ⟨-, l, content, hl, hn, hnew⟩
    · refine ⟨l, content, hadds.located, hadds.node, ?_⟩
      cases hn : first.node? l with
      | none => rfl
      | some n =>
        have hthere := hkeeps.nodes hn
        rw [hadds.new] at hthere
        cases hthere
    · exact ⟨l, content, hg.locate hl, hg.nodes hn, hnew⟩
  · intro i r d link j q e other l hd hlink he hother hl hl'
    rw [hresolve] at hl hl'
    -- A new file cannot be that of an old cell.
    have hne : ∀ {p p' : Path} {l' m : Location} {content content' : Bytes}, fs.AddsFile g p l' content →
        fs.locate p' = .ok m → fs.node? m = some (.file content') → g.locate p = .ok l → g.locate p' = .ok l →
        False := by
      intro p p' l' m content content' hadds hm hn hp hp'
      obtain rfl := Except.ok.inj (hadds.located.symm.trans hp)
      obtain rfl := Except.ok.inj ((hg.locate hm).symm.trans hp')
      have hnew := hadds.new
      rw [hn] at hnew
      cases hnew
    rcases hcell hd hlink with ⟨rfl, rfl, l₁, c₁, hadds⟩ | ⟨hold, l₁, c₁, hl₁, hn₁, -⟩
    · rcases hcell he hother with ⟨rfl, rfl, -⟩ | ⟨-, l₂, c₂, hl₂, hn₂, -⟩
      · exact ⟨rfl, rfl⟩
      · exact (hne hadds hl₂ hn₂ hl hl').elim
    · rcases hcell he hother with ⟨rfl, rfl, l₂, c₂, hadds⟩ | ⟨hold', l₂, c₂, hl₂, -, -⟩
      · exact (hne hadds hl₁ hn₁ hl' hl).elim
      · obtain rfl := Except.ok.inj ((hg.locate hl₁).symm.trans hl)
        obtain rfl := Except.ok.inj ((hg.locate hl₂).symm.trans hl')
        exact h.apart hold hlink hold' hother hl₁ hl₂

/-! ## Links of an output -/

/-- Where the link of an output with a counter leads. -/
def OutputPlan.linkPath (plan : OutputPlan) (source : Table) (counter : UInt32) : Path :=
  let name := plan.param.name
  source.resolve (LinkPolicy.standard.compose (.ofText name) name counter plan.columnInfo.link.extension)

theorem OutputPlan.siblings_linkPath {plan : OutputPlan} (source : Table)
    (hextension : Path.slash ∉ Utf8.encode (LinkPolicy.extensionText plan.columnInfo.link.extension))
    (k m : UInt32) :
    (plan.linkPath source k).Siblings (plan.linkPath source m) :=
  ((LinkPolicy.standard.siblings_fileName plan.param.name hextension k m).join _).resolve _

/-- The columns of a result name their links as their outputs say, and all these names are texts. -/
theorem link_of_refills {source t : Table} {name : String} {outputs : List OutputPlan}
    (h : (blankResult source name outputs).Refills t) {i : Nat} {col : Column} {plan : OutputPlan}
    (hcol : t.columns[i]? = some col) (hplan : outputs[i]? = some plan)
    (hlink : plan.link = linkTemplateFor plan.writer.info plan.param) (hfile : plan.writer.info.kind = .fileLink)
    {k : UInt32} {link : Path} (hnaming : (t.linkNaming col.info).link? k = some link) :
    link.IsText ∧ t.resolve link = plan.linkPath source k := by
  -- only the cells and the counters have changed since the result was blank
  have hdir := congrArg Table.workingDir h.outline
  have hpolicy := congrArg Table.linkPolicy h.outline
  obtain ⟨col₀, hcol₀, houtline⟩ := Table.info_of_outline_eq h.outline hcol
  unfold blankResult at hcol₀
  rw [List.getElem?_map, hplan] at hcol₀
  obtain rfl := Option.some.inj hcol₀
  have hholds := (OutputPlan.holds_blankColumn hlink _).of_outline_eq houtline
  obtain ⟨hbase, hstem⟩ := hholds.files hfile
  have hextension : col.info.link.extension = plan.columnInfo.link.extension :=
    congrArg (fun c : Column => c.info.link.extension) houtline
  unfold LinkNaming.link? Table.linkNaming ColumnInfo.linkStem at hnaming
  -- the policy is the standard one, and the base directory is named after the parameter
  rw [show t.linkPolicy = .standard from hpolicy, hbase, hstem, hextension] at hnaming
  obtain rfl := Option.some.inj hnaming
  exact ⟨(Path.isText_ofText _).join (Path.isText_ofText _), Table.resolve_of_workingDir_eq hdir _⟩

/-- The files of built-in writers have no slash in their extension. -/
theorem not_mem_extensionText {plan : OutputPlan} (hw : plan.writer ∈ Builtin.writers)
    (hlink : plan.link = linkTemplateFor plan.writer.info plan.param) :
    Path.slash ∉ Utf8.encode (LinkPolicy.extensionText plan.columnInfo.link.extension) := by
  -- one writer has an extension of its own
  have hextension : plan.columnInfo.link.extension = none ∨ plan.columnInfo.link.extension = some "txt" := by
    obtain ⟨param, writer, link⟩ := plan
    dsimp only at hw hlink
    subst hlink
    simp only [Builtin.writers, List.mem_cons, List.not_mem_nil, or_false] at hw
    rcases hw with rfl | rfl | rfl | rfl | rfl | rfl
    case inr.inr.inr.inr.inr => exact .inr rfl
    all_goals exact .inl rfl
  refine Utf8.not_mem_encode (c := '/') (by decide) rfl ?_
  rcases hextension with hnone | htxt
  · rw [hnone]
    decide
  · rw [htxt]
    decide

/-! ## Filling a result -/

namespace Bindings

/-- Outputs go through built-in writers, and those that write files have anchored links. -/
structure Grounded (b : Bindings) (source : Table) (first : FileSystem) : Prop where
  builtin : ∀ plan ∈ b.outputs, plan.writer ∈ Builtin.writers
  link : ∀ plan ∈ b.outputs, plan.link = linkTemplateFor plan.writer.info plan.param
  anchored : ∀ plan ∈ b.outputs, plan.writer.info.kind = .fileLink → first.Anchored (plan.linkPath source 0)

/-- A result that is being filled: what was there at first is there, the links that have been made are those of new
files, and the cells that wait link nothing. -/
structure Filling (b : Bindings) (source : Table) (name : String) (first : FileSystem) (t : Table) (fs : FileSystem)
    (waits : Nat → Nat → Prop) : Prop where
  refills : (blankResult source name b.outputs).Refills t
  keeps : first.Keeps fs
  wellFormed : fs.WellFormed
  links : t.LinksNewFiles first fs
  blank : ∀ {i r c}, waits i r → t.cell i r = .ok c → c.link? = none

variable {b : Bindings} {source : Table} {name : String} {first : FileSystem} {t : Table} {fs : FileSystem}
  {waits : Nat → Nat → Prop}

theorem Filling.mono (h : b.Filling source name first t fs waits) {fewer : Nat → Nat → Prop}
    (hfewer : ∀ i r, fewer i r → waits i r) : b.Filling source name first t fs fewer :=
  { h with blank := fun hwaits hc => h.blank (hfewer _ _ hwaits) hc }

theorem Filling.writesCell (hg : b.Grounded source first) (h : b.Filling source name first t fs waits)
    {column row : Nat} {plan : OutputPlan} (hplan : b.outputs[column]? = some plan) (hwaits : waits column row)
    (x : Item) : WritesCell t fs column row (plan.writer.writeAt t fs column row x) := by
  have hmem := List.mem_of_getElem? hplan
  have hkind : ∀ col, t.columns[column]? = some col → col.info.kind = plan.writer.info.kind := by
    intro col hcol
    have hholds := (isResult_of_refills hg.link h.refills).columns column col plan hcol hplan
    exact hholds.kind
  by_cases hfile : plan.writer.info.kind = .fileLink
  · refine writesCell_textFile (hg.builtin plan hmem) hfile h.wellFormed hkind ?_ (fun c hc => h.blank hwaits hc) x
    intro col k link hcol hlink
    -- The link with the counter 0 speaks for all links of the column.
    have hextension := not_mem_extensionText (hg.builtin plan hmem) (hg.link plan hmem)
    have hsiblings := plan.siblings_linkPath source hextension 0 k
    obtain ⟨htext, hresolve⟩ := link_of_refills h.refills hcol hplan (hg.link plan hmem) hfile hlink
    rw [hresolve]
    exact ⟨htext, FileSystem.anchored_of_siblings hsiblings (h.keeps.anchored (hg.anchored plan hmem hfile))⟩
  · exact Writer.IsPlain.writesCell ⟨hg.builtin plan hmem, hfile⟩ hkind x

/-- **What writing into a cell that waits comes to**: nothing that was there is lost, and the result is one cell
further if it succeeds. -/
theorem Filling.writeAt (hg : b.Grounded source first) (h : b.Filling source name first t fs waits)
    {column row : Nat} {plan : OutputPlan} (hplan : b.outputs[column]? = some plan) (hwaits : waits column row)
    {x : Item} {answer : Except BindingError Unit} {t' : Table} {g : FileSystem}
    (hwrite : plan.writer.writeAt t fs column row x = (answer, t', g)) :
    first.Keeps g ∧ ∀ u, answer = .ok u →
      b.Filling source name first t' g fun i r => waits i r ∧ (i ≠ column ∨ r ≠ row) := by
  have hcell := h.writesCell hg hplan hwaits x
  have hrefills := refills_writeAt plan.writer h.refills.shape fs column row x
  rw [hwrite] at hcell hrefills
  cases hcell with
  | refused hadds => exact ⟨h.keeps.trans hadds.keeps, nofun⟩
  | filled hreplaces hfills =>
    have hlinks := h.links.step h.keeps hreplaces hfills
    -- the cells that still wait are other cells, so they have not changed
    have hblank : ∀ {i r d}, waits i r ∧ (i ≠ column ∨ r ≠ row) → t'.cell i r = .ok d → d.link? = none :=
      fun hplace hd => h.blank hplace.1 (hreplaces.others hplace.2 hd)
    cases hfills with
    | plain =>
      exact ⟨h.keeps, fun _ _ => ⟨h.refills.trans hrefills, h.keeps, h.wellFormed, hlinks, hblank⟩⟩
    | file _ hadds =>
      have hkeeps := h.keeps.trans hadds.keeps
      exact ⟨hkeeps, fun _ _ => ⟨h.refills.trans hrefills, hkeeps, hadds.wellFormed, hlinks, hblank⟩⟩

/-- **The outputs of a row** are written one after the other, the first into column `column`. -/
theorem Filling.writeOutputs (hg : b.Grounded source first) (routine : String) {row : Nat} {later : Nat → Prop}
    (hrow : ¬later row) {outputs : List OutputPlan} :
    ∀ {t : Table} {fs : FileSystem} {given : RowOutputs} {column : Nat},
      b.Filling source name first t fs (fun i r => later r ∨ r = row ∧ column ≤ i) →
      (∀ j plan, outputs[j]? = some plan → b.outputs[column + j]? = some plan) →
      ∀ {answer : Except BindingError Table} {g : FileSystem},
        TableForest.writeOutputs routine row t fs given column outputs = (answer, g) →
        first.Keeps g ∧ ∀ t', answer = .ok t' → b.Filling source name first t' g fun _ r => later r := by
  induction outputs with
  | nil =>
    intro t fs given column h _ answer g hwrite
    obtain ⟨rfl, rfl⟩ := Prod.mk.inj hwrite
    refine ⟨h.keeps, fun t' ht' => ?_⟩
    obtain rfl := Except.ok.inj ht'
    exact h.mono fun _ _ hlater => .inl hlater
  | cons plan rest ih =>
    intro t fs given column h hoff answer g hwrite
    have hplan : b.outputs[column]? = some plan := hoff 0 plan rfl
    have hrest : ∀ j p, rest[j]? = some p → b.outputs[column + 1 + j]? = some p := by
      intro j p hp
      have hp' := hoff (j + 1) p hp
      rwa [show column + (j + 1) = column + 1 + j by omega] at hp'
    cases hget : given.values.get? plan.param.name with
    | none =>
      rw [writeOutputs_of_missing hget] at hwrite
      split at hwrite
      · obtain ⟨rfl, rfl⟩ := Prod.mk.inj hwrite
        exact ⟨h.keeps, fun _ hok => nomatch hok⟩
      · refine ih (h.mono fun i r => ?_) hrest hwrite
        exact Or.imp_right fun hplace => ⟨hplace.1, by omega⟩
    | some x =>
      rw [writeOutputs_of_given hget] at hwrite
      rcases hone : plan.writer.writeAt t fs column row x with ⟨e | u, t₁, fs₁⟩
      · obtain ⟨hkeeps, -⟩ := h.writeAt hg hplan (.inr ⟨rfl, Nat.le_refl _⟩) hone
        rw [hone] at hwrite
        obtain ⟨rfl, rfl⟩ := Prod.mk.inj hwrite
        exact ⟨hkeeps, fun _ hok => nomatch hok⟩
      · obtain ⟨-, hnext⟩ := h.writeAt hg hplan (.inr ⟨rfl, Nat.le_refl _⟩) hone
        rw [hone] at hwrite
        -- What waits now are the later rows, and the columns behind this one in this row.
        refine ih ((hnext u rfl).mono fun i r hwaits => ?_) hrest hwrite
        rcases hwaits with hlater | ⟨rfl, hi⟩
        · exact ⟨.inl hlater, .inr fun heq => hrow (heq ▸ hlater)⟩
        · exact ⟨.inr ⟨rfl, by omega⟩, .inl (by omega)⟩

/-- **The rows of a run** are filled one after the other. -/
theorem Filling.runRows {τ : Type} (hg : b.Grounded source first) (routine : Routine τ) {rows : List Nat}
    (hrows : rows.Nodup) :
    ∀ {t : Table} {fs : FileSystem} {state : τ}, b.Filling source name first t fs (fun _ r => r ∈ rows) →
      ∀ {answer : Except BindingError Table} {g : FileSystem} {state' : τ},
        TableForest.runRows routine b source t fs state rows = (answer, g, state') →
        first.Keeps g ∧ ∀ t', answer = .ok t' → t'.LinksNewFiles first g := by
  induction rows with
  | nil =>
    intro t fs state h answer g state' hrun
    obtain ⟨rfl, hrest⟩ := Prod.mk.inj hrun
    obtain ⟨rfl, -⟩ := Prod.mk.inj hrest
    refine ⟨h.keeps, fun t' ht' => ?_⟩
    obtain rfl := Except.ok.inj ht'
    exact h.links
  | cons row rest ih =>
    intro t fs state h answer g state' hrun
    obtain ⟨hrow, hrest⟩ := List.nodup_cons.1 hrows
    -- A row that fails before it is written leaves the files alone.
    have hfails : ∀ {e : BindingError} {left : τ}, (Except.error e, fs, left) = (answer, g, state') →
        first.Keeps g ∧ ∀ t', answer = .ok t' → t'.LinksNewFiles first g := by
      intro e left heq
      obtain ⟨rfl, hleft⟩ := Prod.mk.inj heq
      obtain ⟨rfl, -⟩ := Prod.mk.inj hleft
      exact ⟨h.keeps, fun _ hok => nomatch hok⟩
    unfold TableForest.runRows at hrun
    split at hrun
    · exact hfails hrun
    split at hrun
    · exact hfails hrun
    rename_i given state₁ _
    have hwaits : b.Filling source name first t fs (fun i r => r ∈ rest ∨ r = row ∧ 0 ≤ i) := by
      refine h.mono fun i r hplace => ?_
      rcases hplace with hlater | ⟨rfl, -⟩
      · exact List.mem_cons_of_mem row hlater
      · exact List.mem_cons_self
    have hoff : ∀ j plan, b.outputs[j]? = some plan → b.outputs[0 + j]? = some plan := by
      intro j plan hplan
      rwa [Nat.zero_add]
    rcases hwrite : TableForest.writeOutputs routine.spec.name row t fs given 0 b.outputs with ⟨e | t₁, fs₁⟩
    · obtain ⟨hkeeps, -⟩ := hwaits.writeOutputs hg routine.spec.name hrow hoff hwrite
      rw [hwrite] at hrun
      obtain ⟨rfl, heq⟩ := Prod.mk.inj hrun
      obtain ⟨rfl, -⟩ := Prod.mk.inj heq
      exact ⟨hkeeps, fun _ hok => nomatch hok⟩
    · obtain ⟨-, hnext⟩ := hwaits.writeOutputs hg routine.spec.name hrow hoff hwrite
      rw [hwrite] at hrun
      exact ih hrest (hnext t₁ rfl) hrun

/-- Before the first row nothing is linked. -/
theorem filling_blankResult (source : Table) (name : String) (hfirst : first.WellFormed)
    (hnames : ∀ plan ∈ b.outputs, plan.param.name ≠ "") (waits : Nat → Nat → Prop) :
    b.Filling source name first (blankResult source name b.outputs) first waits := by
  have hblank : ∀ {i r c}, (blankResult source name b.outputs).cell i r = .ok c → c.link? = none := by
    intro i r c hc
    obtain ⟨col, hcol, -, hcell⟩ := Table.cell_eq_ok.1 hc
    unfold blankResult at hcol
    rw [List.getElem?_map] at hcol
    obtain ⟨plan, -, rfl⟩ := Option.map_eq_some_iff.1 hcol
    have hmem : c ∈ List.replicate _ plan.columnInfo.blank := List.mem_of_getElem? hcell
    rw [(List.mem_replicate.1 hmem).2]
    unfold ColumnInfo.blank Cell.blank Cell.link?
    cases plan.columnInfo.kind <;> rfl
  -- nothing is linked yet, so there is no link that could lead to an old file
  refine ⟨.refl (shape_blankResult hnames), .refl first, hfirst, ⟨fun hc hlink => ?_, fun hc hlink => ?_⟩,
    fun _ hc => hblank hc⟩
  · rw [hblank hc] at hlink
    cases hlink
  · rw [hblank hc] at hlink
    cases hlink

end Bindings

/-! ## The run -/

/-- The note of its creation is no link. -/
theorem Table.LinksNewFiles.withCreation {t : Table} {first fs : FileSystem} (h : t.LinksNewFiles first fs)
    (creation : Option Creation) : Table.LinksNewFiles { t with creation := creation } first fs :=
  ⟨h.new, h.apart⟩

variable {σ τ : Type}

/-- **A bound routine changes no file that was there**, and the links of the result that it adds are those of new
files. -/
theorem runBound_spares_files (f : Forest) (parent : TableId) {source : Table} {fs : FileSystem}
    (hfs : fs.WellFormed) (routine : Routine τ) {b : Bindings} (hg : b.Grounded source fs) (now : Moment) (s : σ)
    (r : τ) :
    let o := runBound f parent source fs routine b now s r
    fs.Keeps o.files ∧ ∀ id, o.result = .ok id → ∃ t, o.forest.table id = .ok t ∧ t.LinksNewFiles fs o.files := by
  unfold runBound
  cases hprepare : prepareResult source routine.spec.name b.outputs with
  | error e => exact ⟨.refl fs, nofun⟩
  | ok start =>
    obtain ⟨rfl, hnames⟩ := prepareResult_eq_ok hprepare
    -- all rows wait, and none is written twice
    have hstart := Bindings.filling_blankResult source routine.spec.name hfs hnames
      fun _ row => row ∈ List.range source.rows
    dsimp only
    rcases hrun : runRows routine b source (blankResult source routine.spec.name b.outputs) fs r
      (List.range source.rows) with ⟨e | t, files, state⟩
    · obtain ⟨hkeeps, -⟩ := hstart.runRows hg routine List.nodup_range hrun
      exact ⟨hkeeps, nofun⟩
    · obtain ⟨hkeeps, hlinks⟩ := hstart.runRows hg routine List.nodup_range hrun
      let creation : Creation := ⟨routine.spec.name, b.selections, now⟩
      dsimp only
      -- a failure at the end leaves the files that have been written, all of which are new
      rcases hinsert : f.insertChild parent { t with creation := some creation } with e | ⟨id, f'⟩
      · exact ⟨hkeeps, nofun⟩
      · refine ⟨hkeeps, fun id' hid' => ?_⟩
        obtain rfl := Except.ok.inj hid'
        have hadds := Forest.addsChild_of_insertChild hinsert
        exact ⟨_, Forest.table_eq_ok.2 ⟨_, hadds.added, rfl⟩, (hlinks t rfl).withCreation _⟩

/-- **A run changes no file that was there, and no two cells of its result have one file**, if the links of its
outputs are anchored.  It may fail or succeed, in whatever row. -/
theorem execute_spares_files (f : Forest) {fs : FileSystem} (hfs : fs.WellFormed) (parent : TableId)
    (routine : Routine τ) (config : ResolverConfig) (chooser : Chooser σ) (now : Moment) (s : σ) (r : τ)
    (hanchored : ∀ source b s', f.table parent = .ok source →
      resolve .builtin config source routine.spec chooser s = (.ok b, s') →
      ∀ plan ∈ b.outputs, plan.writer.info.kind = .fileLink → fs.Anchored (plan.linkPath source 0)) :
    let o := execute f fs parent routine .builtin config chooser now s r
    fs.Keeps o.files ∧ (∀ p content, fs.read p = .ok content → o.files.read p = .ok content) ∧
      ∀ id, o.result = .ok id → ∃ t, o.forest.table id = .ok t ∧ t.LinksNewFiles fs o.files := by
  unfold execute
  cases hsource : f.table parent with
  | error e => exact ⟨.refl fs, fun _ _ hread => hread, nofun⟩
  | ok source =>
    dsimp only
    rcases hresolve : resolve .builtin config source routine.spec chooser s with ⟨e | b, s'⟩
    · exact ⟨.refl fs, fun _ _ hread => hread, nofun⟩
    -- bindings that were resolved go through registered writers, with the links that belong to them
    · obtain ⟨-, -, -, hproper⟩ := within_of_resolve hresolve
      have hg : b.Grounded source fs := {
        builtin := fun plan hplan => mem_writers_of_builtin (hproper plan hplan).registered
        link := fun plan hplan => (hproper plan hplan).link
        anchored := hanchored source b s' hsource hresolve }
      obtain ⟨hkeeps, hlinks⟩ := runBound_spares_files f parent hfs routine hg now s' r
      exact ⟨hkeeps, fun p content hread => hkeeps.read hread, hlinks⟩

/-! ## Notes on two measurements -/

namespace Notes

/-- A routine that writes a note for each row. -/
def routine : Routine Unit :=
  ⟨⟨"note", [⟨"out", none, .output, .string, some .fileLink, .any, true⟩]⟩,
    fun _ s => (.ok (RowOutputs.empty.set "out" ⟨.string, "new"⟩), s)⟩

/-- Two measurements with a working directory. -/
def source (dir : String) : Table :=
  { Table.empty "scan" with
    columns := [⟨.ofKind "n" .integer, [⟨.integer 1, ⟨"integer"⟩⟩, ⟨.integer 2, ⟨"integer"⟩⟩]⟩]
    rows := 2
    workingDir := some (.ofText dir) }

def forest (dir : String) : Forest :=
  (Forest.empty.insertRoot (source dir)).2

/-- A note is there already. -/
def files : FileSystem :=
  ⟨[((Path.ofText "out").names, .directory), ((Path.ofText "out/out-000.txt").names, .file (Utf8.encode "keep"))], []⟩

def bindings : Bindings :=
  let param := routine.spec.params[0]
  let writer := Builtin.writers[5]
  ⟨"note", [], [⟨param, writer, linkTemplateFor writer.info param⟩],
    Dict.ofList [("out", "new file-link column (text/plain) via text-file, files under out")]⟩

def outcome (dir : String) : Outcome Unit Unit :=
  execute (forest dir) files ⟨0⟩ routine .builtin .standard firstCandidate .year2000 () ()

theorem wellFormed_files : files.WellFormed :=
  FileSystem.wellFormed_of_forall (by decide +kernel)

/-- The notes of a run in a working directory are new files, and the note that was there is as it was. -/
def Spared (dir : String) : Prop :=
  ∃ t, (outcome dir).result = .ok ⟨1⟩ ∧ (outcome dir).forest.table ⟨1⟩ = .ok t ∧
    t.LinksNewFiles files (outcome dir).files ∧ files.Keeps (outcome dir).files ∧
    (outcome dir).files.read (.ofText "out/out-000.txt") = .ok (Utf8.encode "keep")

end Notes

open Notes in
/-- Notes are new files in a working directory whose `..` stands behind a directory that is there, and in one without
any `..`, whether it is there or not. -/
theorem notes_spare_files : Spared "out/.." ∧ Spared "new/scan" := by
  -- parameters are bound in the same way, wherever the table stands
  have hresolve : ∀ dir, resolve .builtin .standard (source dir) routine.spec firstCandidate () = (.ok bindings, ()) :=
    fun _ => rfl
  have hspared : ∀ dir, files.Anchored (bindings.outputs[0].linkPath (source dir) 0) →
      (outcome dir).result = .ok ⟨1⟩ → Spared dir := by
    intro dir hanchored hresult
    obtain ⟨hkeeps, hread, hlinks⟩ := execute_spares_files (forest dir) wellFormed_files ⟨0⟩ routine .standard
      firstCandidate .year2000 () () (by
        intro t b s' ht hb plan hplan _
        obtain rfl := Except.ok.inj (ht.symm.trans (show (forest dir).table ⟨0⟩ = .ok (source dir) from rfl))
        obtain rfl := Except.ok.inj (Prod.mk.inj (hb.symm.trans (hresolve dir))).1
        obtain rfl := List.mem_singleton.1 hplan
        exact hanchored)
    obtain ⟨t, ht, hnew⟩ := hlinks ⟨1⟩ hresult
    exact ⟨t, hresult, ht, hnew, hkeeps, hread _ _ (by decide +kernel)⟩
  constructor
  · exact hspared _ ⟨[], by decide +kernel⟩ (by decide +kernel)
  · exact hspared _ (FileSystem.anchored_of_names (by decide +kernel)) (by decide +kernel)

open Notes in
/-- **A working directory behind one that is missing**: the note leads to nothing when its link is made, and once the
directory has been made it leads to a file that was there. -/
theorem execute_overwrites :
    files.WellFormed ∧ files.read (.ofText "out/out-000.txt") = .ok (Utf8.encode "keep") ∧
      (outcome "gone/..").result = .ok ⟨1⟩ ∧
      (outcome "gone/..").files.read (.ofText "out/out-000.txt") = .ok (Utf8.encode "new") :=
  ⟨wellFormed_files, by decide +kernel, by decide +kernel, by decide +kernel⟩

end TableForest
