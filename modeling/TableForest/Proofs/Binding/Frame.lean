import TableForest.Proofs.Binding.Resolve
import TableForest.Proofs.Binding.Result
import TableForest.Proofs.Forest.Node

/-!
# What a run does to the forest

A run of a routine either fails and leaves the forest as it was, or adds one table: the result, as the last
child of the table it was computed from.  Nothing else in the forest changes in either case.
-/

namespace TableForest

variable {σ τ : Type}

/-- The note of its creation is no part of what makes a table the result of a routine. -/
theorem Table.IsResult.withCreation {result source : Table} {name : String}
    {outputs : List OutputPlan} (h : result.IsResult source name outputs)
    (creation : Option Creation) :
    Table.IsResult { result with creation := creation } source name outputs where
  shape := ⟨h.shape.fits, h.shape.rowless⟩
  name := h.name
  workingDir := h.workingDir
  width := h.width
  columns := h.columns
  rows := h.rows

/-- **A bound routine adds its result or nothing.** -/
theorem addsChild_of_runBound (f : Forest) (parent : TableId) (source : Table) (fs : FileSystem)
    (routine : Routine τ) {b : Bindings} (now : Moment) (s : σ) (r : τ)
    (hlinks : ∀ plan ∈ b.outputs, plan.link = linkTemplateFor plan.writer.info plan.param) :
    let o := runBound f parent source fs routine b now s r
    match o.result with
    | .error _ => o.forest = f
    | .ok id => ∃ t, f.AddsChild o.forest parent id t ∧ t.IsResult source routine.spec.name b.outputs := by
  unfold runBound
  cases hprepare : prepareResult source routine.spec.name b.outputs with
  | error e => rfl
  | ok start =>
    obtain ⟨rfl, hnames⟩ := prepareResult_eq_ok hprepare
    dsimp only
    rcases hrows : runRows routine b source (blankResult source routine.spec.name b.outputs) fs r
      (List.range source.rows) with ⟨e | t, files, state⟩
    · -- a row has failed, and the forest is as it was
      rfl
    -- only a result that is complete gets into the forest
    · have hresult : t.IsResult source routine.spec.name b.outputs :=
        isResult_of_refills hlinks (refills_runRows (shape_blankResult hnames) hrows)
      let creation : Creation := ⟨routine.spec.name, b.selections, now⟩
      dsimp only
      rcases hinsert : f.insertChild parent { t with creation := some creation } with e | ⟨id, f'⟩
      · rfl
      · exact ⟨_, Forest.addsChild_of_insertChild hinsert, hresult.withCreation _⟩

/-- **A run adds its result to the forest or leaves it alone.**  If the run fails, for whatever reason and
in whatever row, the forest is the one before.  If it succeeds, one table is added as the last child of the
table it was computed from: the result of the routine for the outputs that were bound, which are in the order
of their declaration. -/
theorem execute_adds_result_or_nothing (f : Forest) (fs : FileSystem) (parent : TableId)
    (routine : Routine τ) (registry : Registry) (config : ResolverConfig) (chooser : Chooser σ)
    (now : Moment) (s : σ) (r : τ) :
    let o := execute f fs parent routine registry config chooser now s r
    match o.result with
    | .error _ => o.forest = f
    | .ok id => ∃ source b s' t,
        f.table parent = .ok source ∧
        resolve registry config source routine.spec chooser s = (.ok b, s') ∧
        (b.outputs.map OutputPlan.param).Sublist routine.spec.outputs ∧
        f.AddsChild o.forest parent id t ∧
        t.IsResult source routine.spec.name b.outputs := by
  unfold execute
  cases hsource : f.table parent with
  | error e => rfl
  | ok source =>
    dsimp only
    rcases hresolve : resolve registry config source routine.spec chooser s with ⟨e | b, s'⟩
    · rfl
    -- that the tables are bound is known by now, and the rest is what a bound routine does
    · obtain ⟨-, -, hsub, hproper⟩ := within_of_resolve hresolve
      have hrun := addsChild_of_runBound f parent source fs routine now s' r fun plan hplan =>
        (hproper plan hplan).link
      dsimp only at hrun ⊢
      split
      · rename_i e he
        simpa only [he] using hrun
      · rename_i id hid
        rw [hid] at hrun
        obtain ⟨t, hadds, hresult⟩ := hrun
        exact ⟨source, b, s', t, rfl, hresolve, hsub, hadds, hresult⟩

end TableForest
