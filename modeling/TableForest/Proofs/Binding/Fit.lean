import TableForest.Proofs.Binding.Files
import TableForest.Proofs.Binding.Reading

/-!
# Bindings fit

An output is bound to a writer that can fill the column of the output, as an input is bound to what its reader can
read.  Whatever is refused later is refused by the writer itself, for a reason of its own, or the names for new
files have come to an end.

## The architecture

* **`Writer.Reached`** is what can come of writing, once the writer gets an item of its type and a cell that it is
  made for; **`Writer.reached_writeAt`** goes there through the two ways of changing a cell.
* **`Table.Provides`** is a place for an output.  A result has one for each output and each row, however far it is
  filled, because filling keeps its outline.
* **`fit_of_resolve`** puts inputs and outputs together.
-/

namespace TableForest

variable {registry : Registry} {config : ResolverConfig} {t : Table} {σ : Type}

/-! ## Outputs -/

/-- The cell is one that the writer is made for: it is of the writer's kind, and linked if that is a file link. -/
structure Writer.Takes (w : Writer) (c : Cell) : Prop where
  kind : c.kind = w.info.kind
  linked : w.info.kind = .fileLink → c.link?.isSome

/-- What comes of writing a value into a cell of a column: all names for its file are taken, or the writer gets a
cell that it is made for, and refuses it, makes something of it that does not belong into the column, or has it
stored. -/
inductive Writer.Reached (w : Writer) (t : Table) (fs : FileSystem) (column row : Nat) (info : ColumnInfo)
    (v : w.info.type.Carrier) : Except BindingError Unit × Table × FileSystem → Prop where
  | exhausted {attempts : Nat} (hfile : w.info.kind = .fileLink) :
      Reached w t fs column row info v (.error (.link (.probeExhausted info.name attempts)), t, fs)
  | refused {c : Cell} {e : BindingError} {g : FileSystem} (htakes : w.Takes c)
      (hconvert : w.convert v c t.pathContext fs = (.error e, g)) :
      Reached w t fs column row info v (.error e, t, g)
  | unfit {c d : Cell} {e : TableError} {g : FileSystem} (htakes : w.Takes c)
      (hconvert : w.convert v c t.pathContext fs = (.ok d, g))
      (hcheck : Table.checkCell info (some row) d = .error e) :
      Reached w t fs column row info v (.error (.table e), t, g)
  | stored {c d : Cell} {t' : Table} {g : FileSystem} (htakes : w.Takes c)
      (hconvert : w.convert v c t.pathContext fs = (.ok d, g)) (hcell : t'.cell column row = .ok d) :
      Reached w t fs column row info v (.ok (), t', g)

namespace Writer

variable {w : Writer}

theorem write_of_takes {c : Cell} (h : w.Takes c) (v : w.info.type.Carrier) (context : PathContext)
    (fs : FileSystem) : w.write ⟨w.info.type, v⟩ c context fs = w.convert v c context fs := by
  unfold Writer.write checkKind
  rw [if_pos h.kind]
  simp [Item.as?]

/-- What the writer makes of a cell is checked and stored. -/
theorem Reached.commit (info : ColumnInfo) {fs : FileSystem} {column row : Nat} {v : w.info.type.Carrier}
    {old c : Cell} (hold : t.cell column row = .ok old) (htakes : w.Takes c) {result : Except BindingError Cell}
    {g : FileSystem} (hconvert : w.convert v c t.pathContext fs = (result, g)) :
    let committed := t.commitCell info column row .table result
    w.Reached t fs column row info v (committed.1, committed.2, g) := by
  unfold Table.commitCell
  cases result with
  | error e => exact .refused htakes hconvert
  | ok d =>
    dsimp only
    cases hcheck : Table.checkCell info (some row) d with
    | error e => exact .unfit htakes hconvert hcheck
    | ok => exact .stored htakes hconvert (Table.cell_putCell_self hold d)

theorem Reached.setCounter {fs g : FileSystem} {column row : Nat} {info : ColumnInfo} {v : w.info.type.Carrier}
    {t' : Table} (h : w.Reached t fs column row info v (.ok (), t', g)) (counter : UInt32) :
    w.Reached t fs column row info v (.ok (), t'.setCounter column counter, g) := by
  cases h with
  | stored htakes hconvert hcell => exact .stored htakes hconvert ((Table.cell_setCounter ..).2 hcell)

/-- **A writer is reached** with a cell that it is made for, if its column is of its kind and can have links. -/
theorem reached_writeAt (ht : t.Shape) {column row : Nat} {col : Column} (hcol : t.columns[column]? = some col)
    (hrow : row < t.rows) (hkind : col.info.kind = w.info.kind)
    (hdir : w.info.kind = .fileLink → ∃ dir, col.info.link.baseDir = some dir) (fs : FileSystem)
    (v : w.info.type.Carrier) :
    w.Reached t fs column row col.info v (w.writeAt t fs column row ⟨w.info.type, v⟩) := by
  obtain ⟨c, hplace, hc⟩ := ht.place hcol hrow
  have hold : t.cell column row = .ok c := Except.map_eq_ok.2 ⟨_, hplace, rfl⟩
  -- A cell that is linked or need not be goes to the writer as it is.
  have hupdate (htakes : w.Takes c) : w.Reached t fs column row col.info v
      (t.updateCell column row .table (fun c fs => w.write ⟨w.info.type, v⟩ c t.pathContext fs) fs) := by
    unfold Table.updateCell
    rw [hplace]
    simp only [write_of_takes htakes]
    exact .commit col.info hold htakes rfl
  unfold writeAt
  dsimp only
  split
  · rename_i hfile
    have hcolumn : col.info.kind = .fileLink := hkind.trans hfile
    unfold Table.updateLinkedCell
    rw [hplace]
    dsimp only
    split
    · rename_i hlinked
      exact hupdate ⟨hc.trans hkind, fun _ => hlinked.resolve_left (not_not_intro hcolumn)⟩
    · obtain ⟨dir, hbase⟩ := hdir hfile
      rcases t.nextLink_cases hcolumn hbase fs.pathExists with
        ⟨attempts, hnext⟩ | ⟨link, counter, hnext, hlink⟩
      · rw [hnext]
        exact .exhausted hfile
      · have htakes : w.Takes (Table.linkCell col.info link) := ⟨hfile.symm, fun _ => by rw [hlink]; rfl⟩
        rw [hnext]
        simp only [write_of_takes htakes]
        have hcommit := Reached.commit col.info hold htakes
          (show w.convert v (Table.linkCell col.info link) t.pathContext fs = (_, _) from rfl)
        dsimp only at hcommit
        split
        · rename_i e t' heq
          rwa [heq] at hcommit
        · rename_i t' heq
          rw [heq] at hcommit
          exact hcommit.setCounter counter
  · rename_i hfile
    exact hupdate ⟨hc.trans hkind, fun hlink => absurd hlink hfile⟩

/-- A cell that does not belong into its column is no misfit of the writer. -/
theorem isMisfit_checkCell {info : ColumnInfo} {row : Option Nat} {c : Cell} {e : TableError}
    (h : Table.checkCell info row c = .error e) :
    (BindingError.table e).isMisfit = false := by
  unfold Table.checkCell at h
  split at h
  · obtain rfl := Except.error.inj h
    rfl
  · split at h
    · obtain rfl := Except.error.inj h
      rfl
    · cases h

end Writer

/-- No built-in writer refuses a cell that it is made for as a misfit, or for want of a link. -/
theorem Builtin.isMisfit_writer {w : Writer} (hw : w ∈ writers) {c : Cell} (htakes : w.Takes c)
    {v : w.info.type.Carrier} {context : PathContext} {fs g : FileSystem} {e : BindingError}
    (h : w.convert v c context fs = (.error e, g)) : e.isMisfit = false ∧ ∀ adapter, e ≠ .emptyLink adapter := by
  -- the writers that only set a value fail for that value, which is no misfit
  have hset {value : Value} (hvalue : (c.setValue value).mapError BindingError.cell = .error e) :
      e.isMisfit = false ∧ ∀ adapter, e ≠ .emptyLink adapter := by
    obtain ⟨cause, -, rfl⟩ := Except.mapError_eq_error.1 hvalue
    exact ⟨rfl, by simp⟩
  simp only [writers, List.mem_cons, List.not_mem_nil, or_false] at hw
  rcases hw with rfl | rfl | rfl | rfl | rfl | rfl
  -- the writer of files has been given its link, so nothing but the file system is left to fail
  case inr.inr.inr.inr.inr =>
    obtain ⟨target, htarget⟩ := Option.isSome_iff_exists.1 (htakes.linked rfl)
    replace h : writeTextFile v c context fs = (.error e, g) := h
    unfold writeTextFile link at h
    rw [htarget] at h
    dsimp only at h
    split at h
    · cases (Prod.mk.inj h).1
    · obtain rfl := Except.error.inj (Prod.mk.inj h).1
      exact ⟨rfl, by simp [BindingError.link]⟩
  all_goals exact hset (Prod.mk.inj h).1

/-- The table has a place for an output: a row of a column that is described by the plan, with whatever counter. -/
structure Table.Provides (t : Table) (plan : OutputPlan) (column row : Nat) (col : Column) : Prop where
  shape : t.Shape
  column : t.columns[column]? = some col
  described : ∃ counter, col.info = { plan.columnInfo with link := { plan.columnInfo.link with counter := counter } }
  row : row < t.rows

/-- An output parameter is bound to a writer that can fill the column of the output with items of the parameter's
type.  What is refused is refused by the writer, or there are no names left, or the writer's cell does not belong
into the column. -/
def OutputPlan.Fits (plan : OutputPlan) : Prop :=
  ∀ (t : Table) (fs : FileSystem) (column row : Nat) (col : Column) (x : Item), t.Provides plan column row col →
    x.type = plan.param.type →
      ∃ v, x = ⟨plan.writer.info.type, v⟩ ∧
        plan.writer.Reached t fs column row col.info v (plan.writer.writeAt t fs column row x)

theorem OutputPlan.Proper.fits {plan : OutputPlan} (h : plan.Proper registry) : plan.Fits := by
  intro t fs column row col x hprovides htype
  obtain ⟨v, rfl, -⟩ := Item.as?_of_type_eq (htype.trans h.type.symm)
  obtain ⟨counter, hinfo⟩ := hprovides.described
  have hkind : col.info.kind = plan.writer.info.kind := congrArg ColumnInfo.kind hinfo
  have hdir (hfile : plan.writer.info.kind = .fileLink) : ∃ dir, col.info.link.baseDir = some dir := by
    rw [hinfo]
    exact ⟨_, ((OutputPlan.holds_blankColumn h.link 0).files hfile).1⟩
  exact ⟨v, rfl, Writer.reached_writeAt hprovides.shape hprovides.column hprovides.row hkind hdir fs v⟩

/-- A built-in writer refuses nothing in a place of its output as a misfit, or for want of a link. -/
theorem OutputPlan.Fits.isMisfit_of_builtin {plan : OutputPlan} (h : plan.Fits) (hw : plan.writer ∈ Builtin.writers)
    {t t' : Table} {fs g : FileSystem} {column row : Nat} {col : Column} {x : Item} {e : BindingError}
    (hprovides : t.Provides plan column row col) (htype : x.type = plan.param.type)
    (he : plan.writer.writeAt t fs column row x = (.error e, t', g)) :
    e.isMisfit = false ∧ ∀ adapter, e ≠ .emptyLink adapter := by
  obtain ⟨v, -, hreached⟩ := h t fs column row col x hprovides htype
  rw [he] at hreached
  cases hreached with
  | exhausted hfile => exact ⟨rfl, by simp [BindingError.link]⟩
  | refused htakes hconvert => exact Builtin.isMisfit_writer hw htakes hconvert
  | unfit htakes hconvert hcheck => exact ⟨Writer.isMisfit_checkCell hcheck, by simp⟩

/-- However a blank result is filled, it has a place for each output in each row. -/
theorem provides_of_refills {source r : Table} {name : String} {outputs : List OutputPlan}
    (h : (blankResult source name outputs).Refills r) {k row : Nat} {plan : OutputPlan}
    (hplan : outputs[k]? = some plan) (hrow : row < source.rows) : ∃ col, r.Provides plan k row col := by
  have hsome : outputs.isEmpty = false :=
    List.isEmpty_eq_false_iff.2 (List.ne_nil_of_mem (List.mem_of_getElem? hplan))
  have hblank : (blankResult source name outputs).columns[k]? = some (plan.blankColumn source.rows) := by
    simp only [blankResult, hsome, Bool.false_eq_true, if_false, List.getElem?_map, hplan, Option.map_some]
  have hrows : r.rows = if outputs.isEmpty then 0 else source.rows := congrArg Table.rows h.outline
  rw [hsome, if_neg Bool.false_ne_true] at hrows
  -- the column has the outline of the blank one in its place
  have hlt : k < r.columns.length :=
    Table.length_columns_of_outline_eq h.outline ▸ (List.getElem?_eq_some_iff.1 hblank).1
  have hcol := List.getElem?_eq_getElem hlt
  obtain ⟨c, hc, heq⟩ := Table.info_of_outline_eq h.outline hcol
  obtain rfl := Option.some.inj (hblank.symm.trans hc)
  exact ⟨_, h.shape, hcol, ⟨_, Column.info_of_outline_eq heq⟩, hrows ▸ hrow⟩

/-! ## All bindings -/

/-- Bindings fit the routine and the table that they were made for. -/
structure Bindings.Fit (b : Bindings) (spec : RoutineSpec) (t : Table) : Prop where
  /-- The inputs are bound parameters of the routine, in order. -/
  inputs : ∃ params : List ParamSpec, params.Sublist spec.inputs ∧
    List.Forall₂ (fun p i => i.1 = p.name ∧ InputBinding.Fits t p i.2) params b.inputs
  /-- What was read for a row can be taken by the type of its parameter; of inputs of one name the last counts. -/
  takes : ∀ {fs row inputs}, b.readRow t fs row = .ok inputs →
    ∀ {before i after}, b.inputs = before ++ i :: after → i.1 ∉ after.map Prod.fst →
      ∀ {p : ParamSpec}, i.2.Fits t p →
        ∃ v, i.2.read t fs row = .ok ⟨p.type, v⟩ ∧ (inputs.take i.1 p.type).1 = .ok v
  readers : ∀ i ∈ b.inputs, i.2.reader ∈ Builtin.readers → ∀ {fs row e}, row < t.rows →
    i.2.read t fs row = .error e → e.isMisfit = false
  /-- The outputs are bound parameters of the routine, in order. -/
  outputs : (b.outputs.map OutputPlan.param).Sublist spec.outputs ∧ ∀ plan ∈ b.outputs, plan.Fits
  /-- There is a table for the outputs, which has a place for each of them however far it is filled. -/
  result : ∃ r, prepareResult t spec.name b.outputs = .ok r ∧ r.Shape ∧
    ∀ {r' k plan row}, r.Refills r' → b.outputs[k]? = some plan → row < t.rows → ∃ col, r'.Provides plan k row col
  writers : ∀ plan ∈ b.outputs, plan.writer ∈ Builtin.writers →
    ∀ {r r' : Table} {fs g : FileSystem} {column row : Nat} {col : Column} {x : Item} {e : BindingError},
      r.Provides plan column row col → x.type = plan.param.type →
        plan.writer.writeAt r fs column row x = (.error e, r', g) →
          e.isMisfit = false ∧ ∀ adapter, e ≠ .emptyLink adapter

/-- **What parameters are bound to fits them.**  Let a table have a good shape, and the outputs of a routine have
names.  Then the bindings that are answered with fit: in each row an input is read through its reader from a cell of
the reader's kind, and what is read is of the type of the parameter; an output is written through its writer into a
cell of the writer's kind, which is linked if it is a file link; and built-in adapters never fail for want of
that. -/
theorem fit_of_resolve (ht : t.Shape) {spec : RoutineSpec} (hnames : ∀ p ∈ spec.outputs, p.name ≠ "")
    {chooser : Chooser σ} {s s' : σ} {b : Bindings} (h : resolve registry config t spec chooser s = (.ok b, s')) :
    b.Fit spec t := by
  obtain ⟨-, -, houtputs, hproper⟩ := within_of_resolve h
  obtain ⟨params, hsub, hsuits⟩ := suits_of_resolve h
  have hfits := hsuits.imp fun p i hi => And.intro hi.1 (hi.2.fits ht)
  -- reading, taking, the readers, the result, writing and the writers, in the order of the fields
  refine ⟨⟨params, hsub, hfits⟩, ?_, ?_, ⟨houtputs, fun plan hplan => (hproper plan hplan).fits⟩, ?_, ?_⟩
  · intro fs row inputs hread before i after hsplit hlast p hp
    exact Bindings.take_of_readRow hread hsplit hlast hp
  · intro i hi hreader fs row e hrow he
    obtain ⟨k, hk, rfl⟩ := List.getElem_of_mem hi
    exact (hfits.get (hfits.length_eq ▸ hk) hk).2.isMisfit_of_builtin hreader hrow he
  -- the parameters of the outputs have names, so the result can be prepared
  · cases hprepare : prepareResult t spec.name b.outputs with
    | error e =>
      obtain ⟨⟨plan, hplan, hnone⟩, -⟩ := prepareResult_eq_error hprepare
      exact absurd hnone (hnames _ (houtputs.subset (List.mem_map_of_mem hplan)))
    | ok r =>
      obtain ⟨rfl, hnamed⟩ := prepareResult_eq_ok hprepare
      exact ⟨_, rfl, shape_blankResult hnamed, fun hrefills hplan hrow => provides_of_refills hrefills hplan hrow⟩
  · intro plan hplan hwriter r r' fs g column row col x e hprovides htype he
    exact OutputPlan.Fits.isMisfit_of_builtin (hproper plan hplan).fits hwriter hprovides htype he

/-! ## Labels for two measurements -/

namespace Labels

/-- A routine that writes a label for each number. -/
def spec : RoutineSpec :=
  ⟨"label", [⟨"n", none, .input, .i64, none, .any, true⟩, ⟨"tag", none, .input, .string, none, .any, true⟩,
    ⟨"out", none, .output, .string, some .fileLink, .any, true⟩]⟩

/-- Takes the first candidates, and a constant for the tag. -/
def chooser : Chooser Unit := fun p _ s =>
  (.ok (some (if p.name = "tag" then .constant 0 "x" else .candidate 0)), s)

def bindings : Bindings :=
  ⟨"label", [("n", .column 0 Builtin.readers[5]), ("tag", .constant ⟨.text "x", ⟨"text"⟩⟩ Builtin.readers[10])],
    Notes.bindings.outputs,
    Dict.ofList [("n", "column \"n\" via integer-i64"), ("tag", "constant x"),
      ("out", "new file-link column (text/plain) via text-file, files under out")]⟩

theorem shape_source : (Notes.source "out").Shape where
  fits := by
    intro c hc
    obtain rfl := List.mem_singleton.1 hc
    exact ⟨by decide, rfl, by decide, by decide⟩
  rowless := nofun

end Labels

open Labels in
theorem labels_fit :
    resolve .builtin .standard (Notes.source "out") spec chooser () = (.ok bindings, ()) ∧
      bindings.Fit spec (Notes.source "out") ∧
      ∃ inputs n tag, bindings.readRow (Notes.source "out") Notes.files 1 = .ok inputs ∧
        (inputs.take "n" .i64).1 = .ok n ∧ (inputs.take "tag" .string).1 = .ok tag := by
  have hresolve : resolve .builtin .standard (Notes.source "out") spec chooser () = (.ok bindings, ()) := rfl
  have hfit : bindings.Fit spec (Notes.source "out") := fit_of_resolve shape_source (by decide) hresolve
  have hread : bindings.readRow (Notes.source "out") Notes.files 1 = .ok ⟨"label", 1,
      Dict.ofList [("n", ⟨.i64, (2 : Int64)⟩), ("tag", ⟨.string, "x"⟩)]⟩ := rfl
  obtain ⟨params, hsub, hfits⟩ := hfit.inputs
  obtain rfl : params = spec.inputs := hsub.eq_of_length hfits.length_eq
  obtain ⟨⟨-, hn⟩, hrest⟩ := List.forall₂_cons.1 hfits
  obtain ⟨⟨-, htag⟩, -⟩ := List.forall₂_cons.1 hrest
  obtain ⟨n, -, htaken⟩ := hfit.takes hread (show bindings.inputs = [] ++ _ :: _ from rfl) (by decide) hn
  obtain ⟨tag, -, htaken'⟩ := hfit.takes hread (show bindings.inputs = [_] ++ _ :: [] from rfl) (by decide) htag
  exact ⟨hresolve, hfit, _, n, tag, hread, htaken, htaken'⟩

end TableForest
