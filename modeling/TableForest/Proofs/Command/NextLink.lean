import TableForest.Proofs.Command.Parts
import TableForest.Proofs.Files.Bare
import TableForest.Proofs.Table.Probe

/-!
# The next links that are shown

What is shown of a forest ends the line of a column with the link that the next file of the column gets.  The link is
computed from the settings of the column alone.  Making a link asks for more: the column has to be one of file links,
and names of files that exist are passed over.  Where nothing exists the two agree on the columns of file links; a
column of another kind that has a directory shows a link that can never be made.  A line holds text, and it tells a link
because the links of a document are texts: no directory in it is anything else.

## The architecture

* **`Table.nextLink_bare`** is the next link of a column where nothing exists, and **`Table.firstLink_eq`** what
  a row to fill is given.
* **`Report.Tells`** relates the line of a column to that link, and **`Report.Shows`** the lines of a table to its
  columns.
* **`Command.next_links_of_inspect`** says of all that is shown of a document that it is these lines, table by
  table.
-/

namespace TableForest

/-- A computation that gives every member of a list something related to it gives the list such a list. -/
theorem Except.exists_forall₂_of_forall {ε α β : Type} {f : α → Except ε β} {R : α → β → Prop} {xs : List α}
    (h : ∀ x ∈ xs, ∃ b, f x = .ok b ∧ R x b) : ∃ bs, xs.mapM f = .ok bs ∧ List.Forall₂ R xs bs := by
  induction xs with
  | nil => exact ⟨[], rfl, .nil⟩
  | cons x rest ih =>
    rw [List.forall_mem_cons] at h
    obtain ⟨⟨b, hb, hx⟩, hrest⟩ := h
    obtain ⟨bs, hbs, hall⟩ := ih hrest
    refine ⟨b :: bs, ?_, .cons hx hall⟩
    rw [List.mapM_cons, hb, hbs]
    rfl

namespace Table

variable {t : Table}

/-! ## Links where nothing exists -/

/-- Without files in the way a column of file links gets the link of its counter. -/
theorem nextLink_bare {info : ColumnInfo} (hkind : info.kind = .fileLink) :
    t.nextLink FileSystem.bare.pathExists info =
      match (t.linkNaming info).link? info.link.counter with
      | some link => .ok (link, nextCounter info.link.counter)
      | none => .error (.link (.noDefaultPath info.name)) := by
  unfold nextLink LinkNaming.link? linkNaming
  rw [if_neg (not_not_intro hkind)]
  cases info.link.baseDir with
  | none => rfl
  | some dir =>
    -- on a bare file system every link is free, so the first number is taken
    have hprobe : probe (fun k => FileSystem.bare.pathExists (t.resolve (t.linkAt info dir k))) t.linkPolicy.maxProbe 0
        info.link.counter = .ok info.link.counter := by
      unfold probe
      rw [if_pos]
      simp [not_pathExists_link]
    dsimp only [Option.map_some]
    rw [hprobe]
    rfl

/-- What making a link answers is the next link of the column, whichever row is filled. -/
theorem makeDefaultLink_answer (h : t.Shape) {index : Nat} {col : Column} (hcol : t.columns[index]? = some col)
    {row : Nat} (hrow : row < t.rows) (pathExists : Path → Bool) :
    (t.makeDefaultLink pathExists index row).1 = (t.nextLink pathExists col.info).map Prod.fst := by
  obtain ⟨c, hplace, -⟩ := h.place hcol hrow
  unfold makeDefaultLink
  rw [hplace]
  dsimp only [requiring]
  cases t.nextLink pathExists col.info with
  | error e => rfl
  | ok next => rfl

/-- The answer to making a link for a column in a new row, where nothing exists. -/
def firstLink (t : Table) (index : Nat) : Except TableError Path :=
  (t.addRow.2.makeDefaultLink FileSystem.bare.pathExists index t.rows).1

/-- A new row changes neither what the columns say of themselves nor how links are named. -/
theorem firstLink_eq (h : t.Shape) {index : Nat} {col : Column} (hcol : t.columns[index]? = some col) :
    t.firstLink index = (t.nextLink FileSystem.bare.pathExists col.info).map Prod.fst := by
  have hcolumns : t.columns.isEmpty = false := by
    cases hempty : t.columns with
    | nil =>
      rw [hempty] at hcol
      cases hcol
    | cons => rfl
  -- a row more changes no description, and the links are made from those
  have hadd : t.addRow.2 = { t with
      columns := t.columns.map fun c => { c with cells := c.cells ++ [c.info.blank] }
      rows := t.rows + 1 } := by
    unfold addRow checkColumns
    rw [hcolumns]
    rfl
  have hgrown : t.addRow.2.columns[index]? = some { col with cells := col.cells ++ [col.info.blank] } := by
    rw [hadd]
    simp [hcol]
  have hrow : t.rows < t.addRow.2.rows := by
    rw [hadd]
    exact Nat.lt_succ_self t.rows
  have hnext : t.addRow.2.nextLink FileSystem.bare.pathExists col.info =
      t.nextLink FileSystem.bare.pathExists col.info := by
    rw [hadd]
    rfl
  unfold firstLink
  rw [makeDefaultLink_answer h.addRow hgrown hrow, hnext]

end Table

/-! ## Lines -/

namespace Report

def indented (depth : Nat) (line : String) : String :=
  String.join (List.replicate depth "  ") ++ line

/-- What stands above the lines of the columns. -/
def headLines (t : Table) : List String :=
  s!"{t.name} ({t.rows} rows, {t.columns.length} columns)" :: t.creation.toList.map creationLine

/-- The line of a column that ends with a link, or without one. -/
def lineWith (depth : Nat) (c : ColumnInfo) (shown : Option Path) : String :=
  indented depth (s!"  - {c.name}: {c.kind.name} [{c.subtype.text}]" ++
    match shown with
    | some link => " next link " ++ link.text
    | none => "")

/-- A line tells the link that it ends with if that is a text, and whether there is one. -/
theorem lineWith_injective {depth : Nat} {c : ColumnInfo} {shown other : Option Path}
    (hshown : ∀ link, shown = some link → link.IsText) (hother : ∀ link, other = some link → link.IsText)
    (h : lineWith depth c shown = lineWith depth c other) : shown = other := by
  have hends := (String.append_right_inj _).1 ((String.append_right_inj _).1 h)
  cases shown with
  | none =>
    cases other with
    | none => rfl
    | some link => simp at hends
  | some link =>
    cases other with
    | none => simp at hends
    | some link' =>
      have htext : link.text = link'.text := (String.append_right_inj _).1 hends
      rw [← Path.ofText_text_iff.2 (hshown link rfl), ← Path.ofText_text_iff.2 (hother link' rfl), htext]

theorem indented_columnLine (depth : Nat) (t : Table) (c : ColumnInfo) :
    indented depth (columnLine t.linkPolicy c) = lineWith depth c ((t.linkNaming c).link? c.link.counter) := by
  unfold columnLine nextLinkText lineWith Table.linkNaming LinkNaming.link?
  cases c.link.baseDir with
  | none => rfl
  | some dir => rfl

/-- What the line of a column tells: for a column of file links whether a link can be made where nothing exists, and
which; for another column nothing of that kind, as no link can be made for it. -/
structure Tells (t : Table) (depth index : Nat) (c : ColumnInfo) (line : String) : Prop where
  settings : line = lineWith depth c ((t.linkNaming c).link? c.link.counter)
  made : c.kind = .fileLink → ∀ link, link.IsText ∧ line = lineWith depth c (some link) ↔ t.firstLink index = .ok link
  unmade : c.kind = .fileLink → (line = lineWith depth c none ↔ ∃ e, t.firstLink index = .error e)
  otherKind : c.kind ≠ .fileLink → t.firstLink index = .error (.link (.notAFileLink c.name c.kind))
  anyRow : ∀ row < t.rows, (t.makeDefaultLink FileSystem.bare.pathExists index row).1 = t.firstLink index

/-- The lines of a table: what stands above, and one line for each column, which tells of its next link. -/
def Shows (t : Table) (depth : Nat) (block : List String) : Prop :=
  ∃ lines, block = (headLines t).map (indented depth) ++ lines ∧ lines.length = t.columns.length ∧
    ∀ index c line, t.infos[index]? = some c → lines[index]? = some line → Tells t depth index c line

/-- The link that a line ends with is a text if the directory of the column is one. -/
theorem isText_of_link? {t : Table} {index : Nat} {c : ColumnInfo} (htexts : ∀ p ∈ t.paths, p.IsText)
    (hc : t.infos[index]? = some c) {k : UInt32} {link : Path} (h : (t.linkNaming c).link? k = some link) :
    link.IsText := by
  obtain ⟨dir, hdir, rfl⟩ := Option.map_eq_some_iff.1 h
  refine (htexts dir ?_).join (Path.isText_ofText _)
  rw [Table.paths_eq, List.mem_append, List.mem_flatMap]
  exact .inr ⟨c, List.mem_of_getElem? hc, Option.mem_toList.2 hdir⟩

theorem tells_columnLine {t : Table} (h : t.Shape) (htexts : ∀ p ∈ t.paths, p.IsText) (depth : Nat) {index : Nat}
    {c : ColumnInfo} (hc : t.infos[index]? = some c) :
    Tells t depth index c (indented depth (columnLine t.linkPolicy c)) := by
  -- no two of the links that may be shown have one text
  have hshown : ∀ link, (t.linkNaming c).link? c.link.counter = some link → link.IsText :=
    fun link hlink => isText_of_link? htexts hc hlink
  have hcolumn : ∃ col, t.columns[index]? = some col ∧ col.info = c := by
    -- the column is known by its description, and the links need its cells as well
    simpa [Table.infos] using hc
  obtain ⟨col, hcol, rfl⟩ := hcolumn
  have hfirst := Table.firstLink_eq h hcol
  rw [indented_columnLine]
  -- a link that is shown, a link that cannot be made, other kinds, and the links of single cells
  refine ⟨rfl, fun hkind link => ?_, fun hkind => ?_, fun hkind => ?_, fun row hrow => ?_⟩
  · rw [hfirst, Table.nextLink_bare hkind]
    constructor
    · rintro ⟨htext, hline⟩
      have hlink : ∀ other, some link = some other → other.IsText := by
        rintro _ ⟨⟩
        exact htext
      rw [lineWith_injective hshown hlink hline]
      rfl
    · intro hmade
      cases hlink : (t.linkNaming col.info).link? col.info.link.counter with
      | none =>
        rw [hlink] at hmade
        cases hmade
      | some shown =>
        rw [hlink] at hmade
        obtain rfl : shown = link := Except.ok.inj hmade
        exact ⟨hshown shown hlink, rfl⟩
  · rw [hfirst, Table.nextLink_bare hkind]
    constructor
    · intro hline
      have hnone : ∀ other : Path, none = some other → other.IsText := by
        rintro _ ⟨⟩
      rw [lineWith_injective hshown hnone hline]
      exact ⟨_, rfl⟩
    · rintro ⟨e, hfailed⟩
      cases hlink : (t.linkNaming col.info).link? col.info.link.counter with
      | none => rfl
      | some shown =>
        rw [hlink] at hfailed
        cases hfailed
  · rw [hfirst]
    unfold Table.nextLink
    rw [if_pos hkind]
    rfl
  · rw [hfirst]
    exact Table.makeDefaultLink_answer h hcol hrow _

theorem shows_indentedLines {t : Table} (h : t.Shape) (htexts : ∀ p ∈ t.paths, p.IsText) (depth : Nat) :
    Shows t depth (indentedLines depth t) := by
  refine ⟨t.infos.map fun c => indented depth (columnLine t.linkPolicy c), ?_, ?_, fun index c line hc hline => ?_⟩
  · unfold indentedLines tableLines headLines
    simp only [List.cons_append, List.map_cons, List.map_append, List.map_map]
    rfl
  · simp [Table.infos]
  · rw [List.getElem?_map, hc] at hline
    obtain rfl := Option.some.inj hline
    exact tells_columnLine h htexts depth hc

end Report

namespace Command

variable {fs : FileSystem} {document : Path} {f : Forest}

/-- **What is shown of a document are the lines of its tables**, of all of them, and the line of a column of file
links tells exactly which link a row of it is given where nothing exists.  A column of another kind is given none,
whatever its line says. -/
theorem next_links_of_inspect (h : load fs document = .ok f) :
    (∃ blocks, execute fs (.inspect document) = (.ok (Report.ofLines blocks.flatten), fs) ∧
      List.Forall₂ (fun id block => ∃ n depth, f.node? id = some n ∧ f.depth id = .ok depth ∧
        Report.Shows n.table depth block) f.walkAll blocks) ∧
      ∀ id n, f.node? id = some n → id ∈ f.walkAll := by
  have hsound := sound_of_load h
  have htexts := hasTextPaths_of_load h
  -- every table that is walked has its block, and no block can fail
  have hblock : ∀ id ∈ f.walkAll, ∃ block,
      (do return Report.indentedLines (← f.depth id) (← f.table id) : Except TableError (List String)) = .ok block ∧
        ∃ n depth, f.node? id = some n ∧ f.depth id = .ok depth ∧ Report.Shows n.table depth block := by
    intro id hid
    obtain ⟨n, hn⟩ := (Forest.mem_walkAll hsound.linked id).1 hid
    obtain ⟨above, -, -, hdepth⟩ := Forest.ancestors_eq_ok hsound.linked hn
    refine ⟨_, ?_, n, above.length, hn, hdepth,
      Report.shows_indentedLines (hsound.shapes (Forest.tableOf?_of_node? hn)) (htexts id n hn) above.length⟩
    rw [hdepth, Forest.table_eq_ok.2 ⟨n, hn, rfl⟩]
    rfl
  obtain ⟨blocks, hblocks, hall⟩ := Except.exists_forall₂_of_forall hblock
  refine ⟨⟨blocks, ?_, hall⟩, fun id n hn => (Forest.mem_walkAll hsound.linked id).2 ⟨n, hn⟩⟩
  -- the report is made of the blocks alone, and nothing else is read
  have hlines : Report.forestLines f = .ok blocks.flatten := by
    unfold Report.forestLines
    rw [hblocks]
    rfl
  have hshown : runInspect fs document = .ok (Report.ofLines blocks.flatten) := by
    unfold runInspect
    rw [h]
    simp only [bind, Except.bind, hlines]
    rfl
  unfold execute
  simp only [hshown]

/-- Notes and traces; both columns say where links go. -/
def shelfTable : Table :=
  (Table.traces 7).run [.setLinkDefaults 0 ⟨some (.ofText "out"), none, none, 0⟩]

/-- A document with the notes and the traces, and nothing else. -/
def shelf : FileSystem :=
  ⟨[((Path.ofText "d.json").names, .file ((⟨documentVersion, [.ofTable shelfTable]⟩ : TreeDocument).bytes .pretty))], []⟩

theorem exists_load_shelf : ∃ f, load shelf (.ofText "d.json") = .ok f ∧ f.table ⟨0⟩ = .ok shelfTable := by
  have hread : (load shelf (.ofText "d.json")).map (fun f => f.table ⟨0⟩) = .ok (.ok shelfTable) := by decide +kernel
  obtain ⟨f, hload, htable⟩ := Except.map_eq_ok.1 hread
  exact ⟨f, hload, htable⟩

/-- The lines of the shelf tell of its columns. -/
theorem next_links_of_shelf : ∃ f, load shelf (.ofText "d.json") = .ok f ∧
    ∃ blocks, execute shelf (.inspect (.ofText "d.json")) = (.ok (Report.ofLines blocks.flatten), shelf) ∧
      List.Forall₂ (fun id block => ∃ n depth, f.node? id = some n ∧ f.depth id = .ok depth ∧
        Report.Shows n.table depth block) f.walkAll blocks := by
  obtain ⟨f, hload, -⟩ := exists_load_shelf
  exact ⟨f, hload, (next_links_of_inspect hload).1⟩

/-- **A column of texts shows a next link**, and none can be made for it. -/
theorem next_link_of_texts : ∃ f c, load shelf (.ofText "d.json") = .ok f ∧ f.table ⟨0⟩ = .ok shelfTable ∧
    shelfTable.infos[0]? = some c ∧
    execute shelf (.inspect (.ofText "d.json")) = (.ok (Report.ofLines
      ["scan (2 rows, 2 columns)", "  - note: text [text] next link out/note-000",
        "  - trace: file-link [file] next link out/trace-007.txt"]), shelf) ∧
    Report.lineWith 0 c (some (.ofText "out/note-000")) = "  - note: text [text] next link out/note-000" ∧
    shelfTable.firstLink 0 = .error (.link (.notAFileLink "note" .text)) := by
  obtain ⟨f, hload, htable⟩ := exists_load_shelf
  have hshown : (execute shelf (.inspect (.ofText "d.json"))).1 = .ok (Report.ofLines
      ["scan (2 rows, 2 columns)", "  - note: text [text] next link out/note-000",
        "  - trace: file-link [file] next link out/trace-007.txt"]) := by
    decide +kernel
  refine ⟨f, _, hload, htable, rfl, Prod.ext hshown rfl, ?_, ?_⟩
  · decide +kernel
  · decide +kernel

end Command
end TableForest
