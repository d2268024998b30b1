import TableForest.Proofs.Binding.Frame
import TableForest.Proofs.Binding.Reading
import TableForest.Proofs.Binding.Writing

/-!
# Rows of a run

A run calls its routine once for each row of its table, in ascending order, with what the bindings read in
that row, and the outputs of that call stand in that row of the result.  The first row that fails ends it.

## The architecture

* **`Routine.logged`** notes every call, so the calls of a run are part of its outcome.
* **`Bindings.Supplies`**, **`Bindings.RowGives`** and **`Bindings.RowFails`** say what a single row comes to.
* **`Bindings.Progress`** is the invariant of the loop: the rows that were called are done, the others still
  wait.
* **`execute_row_by_row`** reads the invariant off at the end of the loop.
-/

namespace TableForest

/-! ## Reading a row -/

/-- The inputs are those of a row: each bound parameter has the item that its binding reads there, and no
other name has any. -/
structure Bindings.Supplies (b : Bindings) (source : Table) (fs : FileSystem) (row : Nat)
    (inputs : RowInputs) : Prop where
  ofRoutine : inputs.routine = b.routine
  ofRow : inputs.row = row
  bound : ∀ p ∈ b.inputs, ∃ x, p.2.read source fs row = .ok x ∧ inputs.values.get? p.1 = some x
  unbound : ∀ name, name ∉ b.inputs.map Prod.fst → inputs.values.get? name = none

theorem Bindings.Supplies.unique {b : Bindings} {source : Table} {fs : FileSystem} {row : Nat}
    {x y : RowInputs} (hx : b.Supplies source fs row x) (hy : b.Supplies source fs row y) : x = y := by
  -- what is bound is read from the same cell, and nothing else is supplied
  have hvalues : x.values = y.values := by
    refine Dict.eq_of_get? fun name => ?_
    by_cases hname : name ∈ b.inputs.map Prod.fst
    · obtain ⟨p, hp, rfl⟩ := List.mem_map.1 hname
      obtain ⟨i, hread, hget⟩ := hx.bound p hp
      obtain ⟨j, hread', hget'⟩ := hy.bound p hp
      rw [hread] at hread'
      rw [hget, hget', Except.ok.inj hread']
    · rw [hx.unbound name hname, hy.unbound name hname]
  cases x
  cases y
  obtain rfl := hx.ofRoutine.trans hy.ofRoutine.symm
  obtain rfl := hx.ofRow.trans hy.ofRow.symm
  obtain rfl := hvalues
  rfl

/-- Two tables agree in a row: their cells there are the same, and so is what their paths start from. -/
structure Table.AgreesAt (t other : Table) (row : Nat) : Prop where
  workingDir : other.workingDir = t.workingDir
  cells : ∀ i, other.cell i row = t.cell i row

/-- A binding reads nothing of a table but the row. -/
theorem InputBinding.read_of_agreesAt {source other : Table} {row : Nat}
    (h : source.AgreesAt other row) (fs : FileSystem) (binding : InputBinding) :
    binding.read other fs row = binding.read source fs row := by
  cases binding with
  | column index reader =>
    simp only [InputBinding.read, Table.pathContext, h.cells index, h.workingDir]
  | constant c reader =>
    simp only [InputBinding.read, Table.pathContext, h.workingDir]

/-- If inputs cannot be read, it is for the first of them that cannot. -/
theorem readInputs_eq_error {t : Table} {fs : FileSystem} {row : Nat} {inputs : List (String × InputBinding)}
    {e : BindingError} :
    ∀ {values : Dict Item}, readInputs t fs row values inputs = .error e →
      ∃ before p after, inputs = before ++ p :: after ∧ (∀ q ∈ before, ∃ x, q.2.read t fs row = .ok x) ∧
        p.2.read t fs row = .error e := by
  induction inputs with
  | nil =>
    intro values h
    cases h
  | cons p rest ih =>
    intro values h
    rcases Except.bind_eq_error.1 h with hfails | ⟨x, hread, h⟩
    · exact ⟨[], p, rest, rfl, by simp, hfails⟩
    · obtain ⟨before, q, after, hsplit, hbefore, hfails⟩ := ih h
      exact ⟨p :: before, q, after, by rw [hsplit]; rfl, List.forall_mem_cons.2 ⟨⟨x, hread⟩, hbefore⟩, hfails⟩

/-- Inputs are read in order, up to the first that fails. -/
theorem readInputs_cases (t : Table) (fs : FileSystem) (row : Nat)
    {inputs : List (String × InputBinding)} :
    ∀ (values : Dict Item), (inputs.map Prod.fst).Nodup →
      (∃ read, readInputs t fs row values inputs = .ok read ∧
        (∀ p ∈ inputs, ∃ x, p.2.read t fs row = .ok x ∧ read.get? p.1 = some x) ∧
        ∀ name, name ∉ inputs.map Prod.fst → read.get? name = values.get? name) ∨
      (∃ e before p after, readInputs t fs row values inputs = .error e ∧
        inputs = before ++ p :: after ∧ (∀ q ∈ before, ∃ x, q.2.read t fs row = .ok x) ∧
        p.2.read t fs row = .error e) := by
  intro values hnodup
  cases h : readInputs t fs row values inputs with
  | error e =>
    obtain ⟨before, p, after, hrest⟩ := readInputs_eq_error h
    exact .inr ⟨e, before, p, after, rfl, hrest⟩
  | ok read =>
    obtain ⟨hunbound, hlast⟩ := get?_of_readInputs h
    refine .inl ⟨read, rfl, fun p hp => ?_, hunbound⟩
    -- as names are distinct, every input is the last of its name
    obtain ⟨before, after, rfl⟩ := List.append_of_mem hp
    rw [List.map_append, List.map_cons] at hnodup
    exact hlast before p after rfl (List.nodup_cons.1 (List.nodup_append.1 hnodup).2.1).1

/-! ## What a row comes to -/

/-- A routine that is a function of its inputs, and notes what it is called with. -/
def Routine.logged (spec : RoutineSpec) (g : RowInputs → Except String RowOutputs) :
    Routine (List RowInputs) :=
  ⟨spec, fun inputs calls => (g inputs, calls ++ [inputs])⟩

namespace Bindings

variable (b : Bindings) (source : Table) (fs : FileSystem) (spec : RoutineSpec)
  (g : RowInputs → Except String RowOutputs)

/-- A row gives outputs: its inputs can be read, the routine succeeds on them, and every output takes a
cell. -/
structure RowGives (row : Nat) (inputs : RowInputs) (given : RowOutputs) : Prop where
  supplies : b.Supplies source fs row inputs
  runs : g inputs = .ok given
  takes : ∀ plan ∈ b.outputs, ∃ c, plan.Takes given c

/-- A row fails: an input cannot be read and the routine is not called, or the routine fails, or an output is
refused.  In each case it is the first one to fail. -/
inductive RowFails (row : Nat) : Option RowInputs → BindingError → Prop where
  | reading {before after : List (String × InputBinding)} {p : String × InputBinding}
      {e : BindingError} (hsplit : b.inputs = before ++ p :: after)
      (hbefore : ∀ q ∈ before, ∃ x, q.2.read source fs row = .ok x)
      (hread : p.2.read source fs row = .error e) : RowFails row none e
  | running {inputs : RowInputs} {cause : String} (hsupplies : b.Supplies source fs row inputs)
      (hrun : g inputs = .error cause) :
      RowFails row (some inputs) (.routine spec.name row cause)
  | writing {inputs : RowInputs} {given : RowOutputs} {before after : List OutputPlan}
      {plan : OutputPlan} {e : BindingError} (hsupplies : b.Supplies source fs row inputs)
      (hrun : g inputs = .ok given) (hsplit : b.outputs = before ++ plan :: after)
      (hbefore : ∀ p ∈ before, ∃ c, p.Takes given c) (hrefuses : plan.Refuses spec.name row given e) :
      RowFails row (some inputs) e

variable {b source fs spec g}

theorem RowGives.unique {other : Table} {row : Nat} {x x' : RowInputs} {given given' : RowOutputs}
    (hagrees : source.AgreesAt other row) (h : b.RowGives source fs g row x given)
    (h' : b.RowGives other fs g row x' given') : x = x' ∧ given = given' := by
  have hsupplies : b.Supplies source fs row x' :=
    { h'.supplies with
      bound := by
        intro p hp
        obtain ⟨i, hread, hget⟩ := h'.supplies.bound p hp
        exact ⟨i, (InputBinding.read_of_agreesAt hagrees fs p.2).symm.trans hread, hget⟩ }
  obtain rfl := h.supplies.unique hsupplies
  have hruns := h.runs.symm.trans h'.runs
  exact ⟨rfl, Except.ok.inj hruns⟩

/-! ## The loop -/

variable (b source fs g)

/-- A run is between two rows: those that were called are done, and `left` more still wait. -/
structure Progress (t : Table) (calls : List RowInputs) (left : Nat) : Prop where
  infos : t.infos = b.outputs.map OutputPlan.columnInfo
  called : ∀ row x, calls[row]? = some x → ∃ given, b.RowGives source fs g row x given ∧
    ∀ i plan, b.outputs[i]? = some plan → ∃ c, t.cell i row = .ok c ∧ plan.Takes given c
  waiting : ∀ row, calls.length ≤ row → row < calls.length + left →
    ∀ i plan, b.outputs[i]? = some plan → t.cell i row = .ok plan.columnInfo.blank

variable {b source fs g}

theorem Progress.awaits {t : Table} {calls : List RowInputs} {left : Nat}
    (h : b.Progress source fs g t calls (left + 1)) {i : Nat} {plan : OutputPlan}
    (hplan : b.outputs[i]? = some plan) : t.Awaits plan i calls.length where
  info := by rw [h.infos, List.getElem?_map, hplan]; rfl
  blank := h.waiting calls.length (Nat.le_refl _) (by omega) i plan hplan

/-- A row that is filled is done. -/
theorem Progress.step {t t' : Table} {calls : List RowInputs} {left : Nat} {x : RowInputs}
    {given : RowOutputs} (h : b.Progress source fs g t calls (left + 1))
    (hsupplies : b.Supplies source fs calls.length x) (hrun : g x = .ok given)
    (hfills : t.FillsRow t' calls.length 0 given b.outputs) :
    b.Progress source fs g t' (calls ++ [x]) left where
  infos := hfills.infos.trans h.infos
  called := by
    intro row y hy
    by_cases hrow : row < calls.length
    · rw [List.getElem?_append_left hrow] at hy
      obtain ⟨given', hgives, hcells⟩ := h.called row y hy
      refine ⟨given', hgives, fun i plan hplan => ?_⟩
      obtain ⟨c, hc, htakes⟩ := hcells i plan hplan
      exact ⟨c, hfills.others i row c (.inr (by omega)) hc, htakes⟩
    · -- the row that was called last is the one that has been filled
      obtain rfl : row = calls.length := by
        have hlt := (List.getElem?_eq_some_iff.1 hy).1
        rw [List.length_append, List.length_singleton] at hlt
        omega
      rw [List.getElem?_concat_length] at hy
      obtain rfl := Option.some.inj hy
      have hfilled : ∀ i plan, b.outputs[i]? = some plan →
          ∃ c, t'.cell i calls.length = .ok c ∧ plan.Takes given c := by
        intro i plan hplan
        obtain ⟨c, hc, htakes⟩ := hfills.filled i plan hplan
        exact ⟨c, by rwa [Nat.zero_add] at hc, htakes⟩
      refine ⟨given, ⟨hsupplies, hrun, fun plan hplan => ?_⟩, hfilled⟩
      obtain ⟨i, hi⟩ := List.mem_iff_getElem?.1 hplan
      obtain ⟨c, -, htakes⟩ := hfilled i plan hi
      exact ⟨c, htakes⟩
  waiting := by
    intro row hle hlt i plan hplan
    rw [List.length_append, List.length_singleton] at hle hlt
    exact hfills.others i row _ (.inr (by omega))
      (h.waiting row (by omega) (by omega) i plan hplan)

/-- Rows are called in ascending order up to the end or to the first that fails. -/
theorem runRows_of_progress (spec : RoutineSpec) (hinputs : (b.inputs.map Prod.fst).Nodup)
    (houtputs : (b.outputs.map (·.param.name)).Nodup)
    (hplain : ∀ plan ∈ b.outputs, plan.writer.IsPlain) :
    ∀ {left : Nat} {t : Table} {calls : List RowInputs}, b.Progress source fs g t calls left →
      (∃ t' log, runRows (.logged spec g) b source t fs calls (List.range' calls.length left) =
          (.ok t', fs, log) ∧ log.length = calls.length + left ∧ b.Progress source fs g t' log 0) ∨
      (∃ e row done last, runRows (.logged spec g) b source t fs calls
            (List.range' calls.length left) = (.error e, fs, done ++ last.toList) ∧
          row < calls.length + left ∧ done.length = row ∧
          (∀ earlier x, done[earlier]? = some x →
            ∃ given, b.RowGives source fs g earlier x given) ∧
          b.RowFails source fs spec g row last e) := by
  intro left
  induction left with
  | zero =>
    intro t calls h
    exact .inl ⟨t, calls, rfl, rfl, h⟩
  | succ left ih =>
    intro t calls h
    -- whatever happens in this row, the rows before it are done
    have hdone : ∀ earlier x, calls[earlier]? = some x →
        ∃ given, b.RowGives source fs g earlier x given := by
      intro earlier x hx
      obtain ⟨given, hgives, -⟩ := h.called earlier x hx
      exact ⟨given, hgives⟩
    have hlt : calls.length < calls.length + (left + 1) := by omega
    rw [List.range'_succ, runRows, readRow]
    rcases readInputs_cases source fs calls.length .empty hinputs
      with ⟨values, hread, hbound, hunbound⟩ | ⟨e, before, p, after, hread, hsplit, hbefore, hfails⟩
    · let x : RowInputs := ⟨b.routine, calls.length, values⟩
      have hsupplies : b.Supplies source fs calls.length x := ⟨rfl, rfl, hbound, hunbound⟩
      simp only [hread, Except.map, Routine.logged]
      cases hrun : g x with
      | error cause =>
        exact .inr ⟨_, calls.length, calls, some x, rfl, hlt, rfl, hdone, .running hsupplies hrun⟩
      | ok given =>
        have hwrites := writesRow_of_awaits spec.name fs given
          houtputs hplain fun j plan hplan => by
            rw [Nat.zero_add]
            exact h.awaits hplan
        dsimp only
        cases hanswer : writeOutputs spec.name calls.length t fs given 0 b.outputs with
        | mk answer files =>
          rw [hanswer] at hwrites
          generalize houts : b.outputs = outputs at hwrites
          cases hwrites with
          | filled hfills =>
            have hnext := h.step hsupplies hrun (houts ▸ hfills)
            have hlen : (calls ++ [x]).length = calls.length + 1 := by simp
            rcases ih hnext with ⟨t', log, hruns, hlog, hprogress⟩ |
              ⟨e, row, done, last, hruns, hrow, hrest⟩
            · rw [hlen] at hruns hlog
              exact .inl ⟨t', log, hruns, by omega, hprogress⟩
            · rw [hlen] at hruns hrow
              exact .inr ⟨e, row, done, last, hruns, by omega, hrest⟩
          | refused _ hbefore hrefuses =>
            exact .inr ⟨_, calls.length, calls, some x, rfl, hlt, rfl, hdone,
              .writing hsupplies hrun houts hbefore hrefuses⟩
    · simp only [hread, Except.map]
      exact .inr ⟨e, calls.length, calls, none, by simp, hlt, rfl, hdone,
        .reading hsplit hbefore hfails⟩

end Bindings

/-! ## The run -/

theorem progress_blankResult {b : Bindings} {source : Table} {fs : FileSystem} {name : String}
    {g : RowInputs → Except String RowOutputs} :
    b.Progress source fs g (blankResult source name b.outputs) [] source.rows where
  infos := by
    unfold Table.infos blankResult
    rw [List.map_map]
    rfl
  called := by
    intro row x hx
    cases hx
  waiting := by
    intro row _ hlt i plan hplan
    rw [List.length_nil, Nat.zero_add] at hlt
    -- there are rows only if there are outputs
    have hsome : b.outputs.isEmpty = false := by
      rw [List.isEmpty_eq_false_iff]
      exact List.ne_nil_of_mem (List.mem_of_getElem? hplan)
    refine Table.cell_eq_ok.2 ⟨plan.blankColumn source.rows, ?_, ?_, ?_⟩
    · unfold blankResult
      simp only [hsome, Bool.false_eq_true, if_false, List.getElem?_map, hplan, Option.map_some]
    · unfold blankResult
      simpa only [hsome, Bool.false_eq_true, if_false] using hlt
    · unfold OutputPlan.blankColumn
      rw [List.getElem?_replicate, if_pos hlt]

/-- **A run is a run of its rows.**  Let a routine that is a function of its inputs be bound to a table with
inputs of distinct names, outputs of distinct names, and built-in writers of plain values.  If the run
succeeds, the routine was called once for each row, in ascending order, with what the bindings read in that
row, and each output of a call stands in its column and that row of the result.  If the run fails once the
result is set up, the failure is that of the first row that fails, and no later row is called.  What a row
gives is determined by what stands in that row of the table. -/
theorem execute_row_by_row {σ : Type} {f : Forest} (fs : FileSystem) {parent : TableId}
    {spec : RoutineSpec} (g : RowInputs → Except String RowOutputs) {registry : Registry}
    {config : ResolverConfig} {chooser : Chooser σ} (now : Moment) {s s' : σ} {source : Table}
    {b : Bindings} (hsource : f.table parent = .ok source)
    (hbound : resolve registry config source spec chooser s = (.ok b, s'))
    (hinputs : (b.inputs.map Prod.fst).Nodup) (houtputs : (b.outputs.map (·.param.name)).Nodup)
    (hplain : ∀ plan ∈ b.outputs, plan.writer.IsPlain) :
    let o := execute f fs parent (.logged spec g) registry config chooser now s []
    (match o.result with
      | .ok id => ∃ t, o.forest.table id = .ok t ∧ o.routine.length = source.rows ∧
          ∀ row x, o.routine[row]? = some x → ∃ given, b.RowGives source fs g row x given ∧
            ∀ i plan, b.outputs[i]? = some plan → ∃ c, t.cell i row = .ok c ∧ plan.Takes given c
      | .error e =>
        ((∃ plan ∈ b.outputs, plan.param.name = "") ∧ e = .table .emptyColumnName ∧
          o.routine = []) ∨
        ∃ row done last, row < source.rows ∧ o.routine = done ++ last.toList ∧ done.length = row ∧
          (∀ earlier x, done[earlier]? = some x →
            ∃ given, b.RowGives source fs g earlier x given) ∧
          b.RowFails source fs spec g row last e) ∧
    (∀ other row x x' given given', source.AgreesAt other row →
      b.RowGives source fs g row x given → b.RowGives other fs g row x' given' →
      x = x' ∧ given = given') := by
  -- the second half is about what is read and given in one row, whatever the run makes of it
  refine ⟨?_, fun other row x x' given given' hagrees h h' => h.unique hagrees h'⟩
  unfold execute
  simp only [hsource, show (Routine.logged spec g).spec = spec from rfl, hbound, runBound]
  cases hprepare : prepareResult source spec.name b.outputs with
  | error e =>
    -- the result could not be prepared, and no row has been read
    obtain ⟨hnone, rfl⟩ := prepareResult_eq_error hprepare
    exact .inl ⟨hnone, rfl, rfl⟩
  | ok start =>
    obtain ⟨rfl, -⟩ := prepareResult_eq_ok hprepare
    -- nothing has been called yet, and every row waits: the invariant of the loop holds at its start
    have hstart : b.Progress source fs g (blankResult source spec.name b.outputs) [] source.rows :=
      progress_blankResult
    rw [List.range_eq_range']
    -- the rows are either all done, or the first that fails ends the loop
    rcases Bindings.runRows_of_progress spec hinputs houtputs hplain hstart with
      ⟨t, log, hruns, hlog, hdone⟩ | ⟨e, row, done, last, hruns, hrow, hdone, hgives, hfails⟩
    · rw [List.length_nil] at hruns hlog
      simp only [hruns]
      -- the table that was bound is still there, so the result is added below it
      obtain ⟨n, hn, -⟩ := Forest.table_eq_ok.1 hsource
      let creation : Creation := ⟨spec.name, b.selections, now⟩
      obtain ⟨id, f', hinsert⟩ :=
        Forest.insertChild_of_node? hn { t with creation := some creation }
      simp only [creation] at hinsert
      simp only [hinsert]
      have hadds := Forest.addsChild_of_insertChild hinsert
      refine ⟨_, Forest.table_eq_ok.2 ⟨_, hadds.added, rfl⟩, by omega, hdone.called⟩
    · -- the log ends with the failed row, if the routine was called for it at all
      rw [List.length_nil] at hruns hrow
      simp only [hruns]
      exact .inr ⟨row, done, last, by omega, rfl, hdone, hgives, hfails⟩

/-! ## A run of two rows -/

namespace Negation

/-- A routine that takes an integer and gives one. -/
def spec : RoutineSpec :=
  ⟨"negate", [⟨"n", none, .input, .i64, none, .any, true⟩, ⟨"m", none, .output, .i64, none, .any, true⟩]⟩

/-- Gives the negation of what it takes. -/
def run (inputs : RowInputs) : Except String RowOutputs :=
  match inputs.get? "n" .i64 with
  | some n => .ok (RowOutputs.empty.set "m" ⟨.i64, Int64.neg n⟩)
  | none => .error "no number"

/-- One column of two integers. -/
def source : Table :=
  { Table.empty "numbers" with
    columns := [⟨.ofKind "n" .integer, [⟨.integer 4, ⟨"integer"⟩⟩, ⟨.integer (-7), ⟨"integer"⟩⟩]⟩]
    rows := 2 }

def forest : Forest := (Forest.empty.insertRoot source).2

/-- What the routine is bound to if every first candidate is taken. -/
def bindings : Bindings :=
  ⟨"negate", [("n", .column 0 (Builtin.cellReader "integer-i64" .integer .i64 Builtin.integer))],
    [⟨spec.params[1], Builtin.cellWriter "integer-i64" .integer .i64 Value.integer, none⟩],
    Dict.ofList [("n", "column \"n\" via integer-i64"), ("m", "new integer column via integer-i64")]⟩

def outcome : Outcome Unit (List RowInputs) :=
  execute forest ⟨[], []⟩ ⟨0⟩ (.logged spec run) .builtin .standard firstCandidate .year2000 () []

end Negation

open Negation in
theorem negation_row_by_row :
    ∃ t, forest.table ⟨0⟩ = .ok source ∧
      resolve .builtin .standard source spec firstCandidate () = (.ok bindings, ()) ∧
      outcome.result = .ok ⟨1⟩ ∧ outcome.forest.table ⟨1⟩ = .ok t ∧ outcome.routine.length = 2 ∧
      ∀ row x, outcome.routine[row]? = some x → ∃ given, bindings.RowGives source ⟨[], []⟩ run row x given ∧
        ∀ i plan, bindings.outputs[i]? = some plan →
          ∃ c, t.cell i row = .ok c ∧ plan.Takes given c := by
  have hrun := execute_row_by_row ⟨[], []⟩ run .year2000
    (show forest.table ⟨0⟩ = .ok source from rfl)
    (show resolve .builtin .standard source spec firstCandidate () = (.ok bindings, ()) from rfl)
    (by decide) (by decide)
    (by
      intro plan hplan
      obtain rfl := List.mem_singleton.1 hplan
      exact ⟨List.mem_of_getElem? (i := 2) rfl, by decide⟩)
  obtain ⟨t, ht, hlength, hrows⟩ := hrun.1
  exact ⟨t, rfl, rfl, rfl, ht, hlength, hrows⟩

end TableForest
