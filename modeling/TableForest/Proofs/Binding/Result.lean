import TableForest.Binding.Execute
import TableForest.Proofs.Table.Outline

/-!
# The table of a run

The table that the outputs of a routine go into has a column for each output and a row for each row of the
table it is computed from, or no rows at all if there is no output.  `blankResult` is that table before the
first row, and filling it keeps its outline and its shape.
-/

namespace TableForest

/-! ## Before the first row -/

/-- The column of an output over some rows, still blank. -/
def OutputPlan.blankColumn (plan : OutputPlan) (rows : Nat) : Column :=
  ⟨plan.columnInfo, List.replicate rows plan.columnInfo.blank⟩

/-- The result of a routine before its first row. -/
def blankResult (source : Table) (name : String) (outputs : List OutputPlan) : Table :=
  let rows := if outputs.isEmpty then 0 else source.rows
  { Table.empty name with
    columns := outputs.map (·.blankColumn rows)
    rows := rows
    workingDir := source.workingDir }

/-- Columns are added one after the other, as long as each has a name. -/
theorem addOutputColumns_eq_ok {outputs : List OutputPlan} :
    ∀ {t t' : Table}, addOutputColumns t outputs = .ok t' →
      t' = { t with columns := t.columns ++ outputs.map (·.blankColumn t.rows) } ∧
        ∀ plan ∈ outputs, plan.param.name ≠ "" := by
  induction outputs with
  | nil =>
    intro t t' h
    obtain rfl : t = t' := Except.ok.inj h
    simp
  | cons plan rest ih =>
    intro t t' h
    unfold addOutputColumns Table.addColumn Table.requiring at h
    -- the columns are added one by one, so the first without a name ends the preparation
    cases hname : Table.checkName plan.columnInfo.name with
    | error e => simp [hname] at h
    | ok =>
      simp only [hname, Table.push] at h
      obtain ⟨heq, hnames⟩ := ih h
      refine ⟨?_, List.forall_mem_cons.2 ⟨Table.checkName_eq_ok.1 hname, hnames⟩⟩
      rw [heq]
      simp [OutputPlan.blankColumn]

/-- A name that is missing is what keeps columns from being added. -/
theorem addOutputColumns_eq_error {outputs : List OutputPlan} {e : BindingError} :
    ∀ {t : Table}, addOutputColumns t outputs = .error e →
      (∃ plan ∈ outputs, plan.param.name = "") ∧ e = .table .emptyColumnName := by
  induction outputs with
  | nil =>
    intro t h
    cases h
  | cons plan rest ih =>
    intro t h
    unfold addOutputColumns Table.addColumn Table.requiring at h
    cases hname : Table.checkName plan.columnInfo.name with
    | error cause =>
      simp only [hname, Except.error.injEq] at h
      -- a name that is refused is empty
      unfold Table.checkName at hname
      split at hname
      · rename_i hempty
        obtain rfl := Except.error.inj hname
        have hnone : plan.param.name = "" := String.isEmpty_iff.1 hempty
        exact ⟨⟨plan, List.mem_cons_self, hnone⟩, h.symm⟩
      · cases hname
    | ok =>
      simp only [hname, Table.push] at h
      obtain ⟨⟨other, hother, hnone⟩, he⟩ := ih h
      exact ⟨⟨other, List.mem_cons_of_mem plan hother, hnone⟩, he⟩

/-- A table with columns can be given rows. -/
theorem addRows_eq {n : Nat} : ∀ {t : Table}, t.columns ≠ [] →
    addRows t n = .ok { t with
      columns := t.columns.map fun c =>
        { c with cells := c.cells ++ List.replicate n c.info.blank }
      rows := t.rows + n } := by
  induction n with
  | zero =>
    intro t _
    simp [addRows]
  | succ n ih =>
    intro t hcolumns
    -- a row more for all columns, then the other rows
    have hempty : t.columns.isEmpty = false := by simpa using hcolumns
    unfold addRows Table.addRow Table.requiring Table.checkColumns
    simp only [hempty, Bool.false_eq_true, if_false]
    rw [ih (by simpa using hcolumns)]
    simp [List.replicate_succ, Nat.add_assoc, Nat.add_comm 1 n]

/-- The result of a routine is set up as the blank one. -/
theorem prepareResult_eq_ok {source t : Table} {name : String} {outputs : List OutputPlan}
    (h : prepareResult source name outputs = .ok t) :
    t = blankResult source name outputs ∧ ∀ plan ∈ outputs, plan.param.name ≠ "" := by
  unfold prepareResult at h
  obtain ⟨start, hadd, h⟩ := Except.bind_eq_ok.1 h
  obtain ⟨rfl, hnames⟩ := addOutputColumns_eq_ok hadd
  refine ⟨?_, hnames⟩
  -- rows are added only if there is an output
  cases outputs with
  | nil =>
    obtain rfl := Except.ok.inj h
    rfl
  | cons plan rest =>
    rw [List.isEmpty_cons, if_neg Bool.false_ne_true, addRows_eq (by simp [Table.empty])] at h
    obtain rfl := Except.ok.inj h
    simp [blankResult, OutputPlan.blankColumn, Table.empty]

theorem prepareResult_eq_error {source : Table} {name : String} {outputs : List OutputPlan}
    {e : BindingError} (h : prepareResult source name outputs = .error e) :
    (∃ plan ∈ outputs, plan.param.name = "") ∧ e = .table .emptyColumnName := by
  unfold prepareResult at h
  cases hadd : addOutputColumns { Table.empty name with workingDir := source.workingDir } outputs with
  | error cause =>
    simp only [hadd, bind, Except.bind, Except.error.injEq] at h
    obtain rfl := h
    exact addOutputColumns_eq_error hadd
  | ok start =>
    -- with the columns in place the rows are always added
    obtain ⟨rfl, -⟩ := addOutputColumns_eq_ok hadd
    cases outputs with
    | nil => simp [hadd, bind, Except.bind, pure, Except.pure] at h
    | cons plan rest =>
      simp only [hadd, bind, Except.bind, List.isEmpty_cons, Bool.false_eq_true, if_false] at h
      rw [addRows_eq (by simp [Table.empty])] at h
      cases h

theorem shape_blankResult {source : Table} {name : String} {outputs : List OutputPlan}
    (hnames : ∀ plan ∈ outputs, plan.param.name ≠ "") : (blankResult source name outputs).Shape where
  fits := by
    intro c hc
    obtain ⟨plan, hplan, rfl⟩ := List.mem_map.1 hc
    exact .blank (hnames plan hplan) _
  rowless := by
    intro hnil
    have houtputs : outputs = [] := List.map_eq_nil_iff.1 hnil
    simp [blankResult, houtputs]

/-! ## Filling it -/

/-- The table has the outline and the shape of another one: its cells are changed at most. -/
structure Table.Refills (t t' : Table) : Prop where
  outline : t'.outline = t.outline
  shape : t'.Shape

namespace Table.Refills

variable {t t' t'' : Table}

theorem refl (h : t.Shape) : t.Refills t := ⟨rfl, h⟩

theorem trans (h : t.Refills t') (h' : t'.Refills t'') : t.Refills t'' :=
  ⟨h'.outline.trans h.outline, h'.shape⟩

end Table.Refills

/-- Writing into a cell changes cells only, whatever the writer does and whether it succeeds. -/
theorem refills_writeAt (w : Writer) {t : Table} (h : t.Shape) (fs : FileSystem) (column row : Nat)
    (x : Item) : t.Refills (w.writeAt t fs column row x).2.1 := by
  unfold Writer.writeAt
  dsimp only
  split
  · exact ⟨Table.outline_updateLinkedCell _ _ _ _ _ _, h.updateLinkedCell _ _ _ _ _ _⟩
  · exact ⟨Table.outline_updateCell _ _ _ _ _, h.updateCell _ _ _ _ _⟩

def RowOutputs.without (given : RowOutputs) (param : String) : RowOutputs :=
  ⟨given.values.erase param⟩

theorem writeOutputs_of_given {routine : String} {row : Nat} {t : Table} {fs : FileSystem}
    {given : RowOutputs} {column : Nat} {plan : OutputPlan} {rest : List OutputPlan} {x : Item}
    (h : given.values.get? plan.param.name = some x) :
    writeOutputs routine row t fs given column (plan :: rest) =
      match plan.writer.writeAt t fs column row x with
      | (.ok (), t, fs) =>
        writeOutputs routine row t fs (given.without plan.param.name) (column + 1) rest
      | (.error e, _, fs) => (.error e, fs) := by
  rw [writeOutputs, RowOutputs.take, h]
  rfl

theorem writeOutputs_of_missing {routine : String} {row : Nat} {t : Table} {fs : FileSystem}
    {given : RowOutputs} {column : Nat} {plan : OutputPlan} {rest : List OutputPlan}
    (h : given.values.get? plan.param.name = none) :
    writeOutputs routine row t fs given column (plan :: rest) =
      if plan.param.required then (.error (.missingOutput routine plan.param.name row), fs)
      else writeOutputs routine row t fs (given.without plan.param.name) (column + 1) rest := by
  rw [writeOutputs, RowOutputs.take, h]
  rfl

/-- Writing the outputs of a row changes cells only. -/
theorem refills_writeOutputs {routine : String} {row : Nat} {outputs : List OutputPlan} :
    ∀ {t t' : Table} {fs fs' : FileSystem} {given : RowOutputs} {column : Nat}, t.Shape →
      writeOutputs routine row t fs given column outputs = (.ok t', fs') → t.Refills t' := by
  induction outputs with
  | nil =>
    intro t t' fs fs' given column hshape h
    obtain ⟨ht, -⟩ := Prod.mk.inj h
    obtain rfl : t = t' := Except.ok.inj ht
    exact .refl hshape
  | cons plan rest ih =>
    intro t t' fs fs' given column hshape h
    -- an output without a value keeps its cells, and one with a value has its own cell replaced
    cases hget : given.values.get? plan.param.name with
    | none =>
      rw [writeOutputs_of_missing hget] at h
      split at h
      · cases (Prod.mk.inj h).1
      · exact ih hshape h
    | some x =>
      rw [writeOutputs_of_given hget] at h
      have hone := refills_writeAt plan.writer hshape fs column row x
      split at h
      · rename_i left files hwrite
        rw [hwrite] at hone
        exact hone.trans (ih hone.shape h)
      · cases (Prod.mk.inj h).1

variable {τ : Type}

/-- Running a routine for any rows changes cells only. -/
theorem refills_runRows {routine : Routine τ} {b : Bindings} {source : Table} {rows : List Nat} :
    ∀ {t t' : Table} {fs fs' : FileSystem} {state state' : τ}, t.Shape →
      runRows routine b source t fs state rows = (.ok t', fs', state') → t.Refills t' := by
  induction rows with
  | nil =>
    intro t t' fs fs' state state' hshape h
    obtain ⟨ht, -⟩ := Prod.mk.inj h
    obtain rfl : t = t' := Except.ok.inj ht
    exact .refl hshape
  | cons row rest ih =>
    intro t t' fs fs' state state' hshape h
    unfold runRows at h
    split at h
    · cases (Prod.mk.inj h).1
    · split at h
      · cases (Prod.mk.inj h).1
      · split at h
        · cases (Prod.mk.inj h).1
        · -- the row was read, run and written: the other rows go on from what it left
          rename_i left files hwrite
          have hone := refills_writeOutputs hshape hwrite
          exact hone.trans (ih hone.shape h)

/-! ## After the last row -/

/-- The column holds an output: it is called as the parameter, of the kind and the subtype that the writer
fills, and new files go into a directory called as the parameter, under names that start with it. -/
structure Column.Holds (c : Column) (plan : OutputPlan) : Prop where
  name : c.info.name = plan.param.name
  kind : c.info.kind = plan.writer.info.kind
  subtype : c.info.subtype = plan.writer.info.subtype
  files : plan.writer.info.kind = .fileLink →
    c.info.link.baseDir = some (.ofText plan.param.name) ∧ c.info.link.stem = some plan.param.name

/-- The result of a routine for a table: the name of the routine, the directory of the table, a column for
each output, and a row for each row of the table if there is any output. -/
structure Table.IsResult (result source : Table) (name : String) (outputs : List OutputPlan) : Prop where
  shape : result.Shape
  name : result.name = name
  workingDir : result.workingDir = source.workingDir
  width : result.columns.length = outputs.length
  columns : ∀ (i : Nat) (c : Column) (plan : OutputPlan), result.columns[i]? = some c →
    outputs[i]? = some plan → c.Holds plan
  rows : result.rows = if outputs = [] then 0 else source.rows

/-- A blank column holds its output if the files of the output go where its candidate said. -/
theorem OutputPlan.holds_blankColumn {plan : OutputPlan}
    (hlink : plan.link = linkTemplateFor plan.writer.info plan.param) (rows : Nat) :
    (plan.blankColumn rows).Holds plan where
  name := rfl
  kind := rfl
  subtype := rfl
  files := by
    intro hkind
    unfold OutputPlan.blankColumn OutputPlan.columnInfo
    rw [hlink, linkTemplateFor, if_pos hkind]
    cases plan.writer.info.linkExtension with
    | none => exact ⟨rfl, rfl⟩
    | some extension => exact ⟨rfl, rfl⟩

/-- What a column holds can be read off its outline. -/
theorem Column.Holds.of_outline_eq {c c' : Column} {plan : OutputPlan} (h : c.Holds plan)
    (heq : c'.outline = c.outline) : c'.Holds plan := by
  have hinfo := congrArg Column.info heq
  have hname := congrArg ColumnInfo.name hinfo
  have hkind := congrArg ColumnInfo.kind hinfo
  have hsub := congrArg ColumnInfo.subtype hinfo
  have hdir := congrArg (fun info : ColumnInfo => info.link.baseDir) hinfo
  have hstem := congrArg (fun info : ColumnInfo => info.link.stem) hinfo
  refine ⟨hname.trans h.name, hkind.trans h.kind, hsub.trans h.subtype, fun hfile => ?_⟩
  exact ⟨hdir.trans (h.files hfile).1, hstem.trans (h.files hfile).2⟩

/-- However the blank result is filled, it is the result. -/
theorem isResult_of_refills {source t : Table} {name : String} {outputs : List OutputPlan}
    (hlinks : ∀ plan ∈ outputs, plan.link = linkTemplateFor plan.writer.info plan.param)
    (h : (blankResult source name outputs).Refills t) : t.IsResult source name outputs where
  shape := h.shape
  name := congrArg Table.name h.outline
  workingDir := by
    have hdir := congrArg Table.workingDir h.outline
    exact hdir
  width := (Table.length_columns_of_outline_eq h.outline).trans (List.length_map _)
  columns := by
    intro i c plan hc hplan
    -- the column has the outline of the blank one in its place
    obtain ⟨c₀, hc₀, heq⟩ := Table.info_of_outline_eq h.outline hc
    unfold blankResult at hc₀
    rw [List.getElem?_map, hplan] at hc₀
    obtain rfl := Option.some.inj hc₀
    exact (OutputPlan.holds_blankColumn (hlinks plan (List.mem_of_getElem? hplan)) _).of_outline_eq heq
  rows := by
    have hrows : t.rows = if outputs.isEmpty then 0 else source.rows :=
      congrArg Table.rows h.outline
    rw [hrows]
    cases outputs <;> simp

end TableForest
