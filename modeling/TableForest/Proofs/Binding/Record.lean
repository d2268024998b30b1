import TableForest.Adapter.Builtin
import TableForest.Binding.Execute
import TableForest.Proofs.Binding.Resolve
import TableForest.Proofs.Dict
import TableForest.Proofs.Forest.Node

/-!
# The record of a run

A table that a routine made tells what the parameters of the routine were bound to.  The descriptions stand under the
names of the parameters, inputs and outputs together, and of parameters of one name the last is told.

## The architecture

* **`Choice.Recorded`** relates what was bound to a record of descriptions; **`Choice.recorded_ofList`** shows what a
  dictionary makes of it.
* **`note_ne_of_picks`** tells the descriptions of inputs from those of outputs.
* **`execute_eq_ok`** and **`creation_of_runBound`** find the record in the table that a run adds.
-/

namespace TableForest

/-! ## Descriptions by name -/

/-- A record of descriptions by name, as parameters were bound one after the other. -/
structure Choice.Recorded (choices : List Choice) (record : Dict String) : Prop where
  /-- Every bound parameter has an entry under its name, and nothing else has one. -/
  names : ∀ name, (record.get? name).isSome = true ↔ name ∈ choices.map fun x => x.entry.1
  /-- Of parameters of one name the last is told. -/
  last : ∀ before x after, choices = before ++ x :: after → x.entry.1 ∉ after.map (fun y => y.entry.1) →
    record.get? x.entry.1 = some x.entry.2
  /-- Every bound parameter is told unless one of its name has another description. -/
  each : (∀ x ∈ choices, record.get? x.entry.1 = some x.entry.2) ↔
    ∀ x ∈ choices, ∀ y ∈ choices, x.entry.1 = y.entry.1 → x.entry.2 = y.entry.2

/-- **A dictionary tells the last parameter of each name.** -/
theorem Choice.recorded_ofList (choices : List Choice) : Recorded choices (.ofList (choices.map entry)) := by
  have hsome : ∀ name, ((Dict.ofList (choices.map entry)).get? name).isSome = true ↔
      name ∈ choices.map fun x => x.entry.1 := by
    intro name
    rw [Dict.get?_ofList, Option.isSome_iff_ne_none, ne_eq, Dict.lookup_eq_none, not_not]
    simp
  refine ⟨hsome, ?_, ?_, ?_⟩
  · rintro before x after rfl hlast
    -- what was chosen last under a name is what the map keeps
    have hafter : (after.map entry).reverse.lookup x.entry.1 = none := by
      rw [Dict.lookup_eq_none]
      simpa using hlast
    rw [Dict.get?_ofList, List.map_append, List.map_cons, List.reverse_append, List.reverse_cons, List.append_assoc,
      List.lookup_append, hafter, Option.none_or, List.singleton_append, Dict.lookup_cons_eq_ite, if_pos rfl]
  · intro hown x hx y hy hname
    have hfound := hown x hx
    rw [hname, hown y hy] at hfound
    exact (Option.some.inj hfound).symm
  -- if all choices of a name say the same, it does not matter which of them is kept
  · intro hagree x hx
    obtain ⟨note, hnote⟩ := Option.isSome_iff_exists.1 ((hsome x.entry.1).2 (List.mem_map_of_mem hx))
    have hentry := hnote
    rw [Dict.get?_ofList] at hentry
    obtain ⟨y, hy, heq⟩ := List.mem_map.1 (List.mem_reverse.1 (Dict.mem_of_lookup hentry))
    rw [hnote, hagree x hx y hy (congrArg Prod.fst heq).symm, heq]

/-! ## What descriptions say -/

variable {registry : Registry} {config : ResolverConfig} {t : Table} {σ τ : Type}

namespace Selection.Picks

variable {p : ParamSpec} {found : List Candidate} {sel : Selection} {x : Choice}

/-- What a parameter is bound to is told under its name. -/
theorem name_eq (h : sel.Picks p found x) : x.entry.1 = p.name := by
  cases h <;> rfl

/-- The description of an input starts with another letter than that of an output. -/
theorem head?_note (h : sel.Picks p found x) :
    x.entry.2.toList.head? = some (match x with | .input _ _ _ => 'c' | .output _ _ => 'n') := by
  cases h with
  | column hc => simp [Choice.entry, Candidate.describe, toString]
  | constant hc hread => simp [Choice.entry, toString]
  | @newColumn i writer link hc =>
    cases link with
    | none => simp [Choice.entry, Candidate.describe, toString]
    | some link => simp [Choice.entry, Candidate.describe, toString]

end Selection.Picks

/-- What was chosen in a complete dialogue was picked for declared parameters, in order. -/
theorem Dialogue.picks {declared : List ParamSpec} {calls : List Call} {choices : List Choice}
    (h : Dialogue (questions registry config t declared) calls (.ok choices)) :
    ∃ params : List ParamSpec, params.Sublist declared ∧
      List.Forall₂ (fun p x => x.entry.1 = p.name ∧ ∃ sel, Selection.Picks p (candidates registry config t p) sel x)
        params choices := by
  have hsome : ∀ {p : ParamSpec} {s : Selection} {x a : Choice}, s.Picks p (candidates registry config t p) x →
      some x = some a → true = true ∧ a.entry.1 = p.name ∧
        ∃ sel : Selection, sel.Picks p (candidates registry config t p) a := by
    intro p s x a hpicks hx
    obtain rfl := Option.some.inj hx
    exact ⟨rfl, hpicks.name_eq, s, hpicks⟩
  obtain ⟨params, hsub, hall⟩ := @Dialogue.chosen registry config t _ some (fun _ => true) _ hsome _ _ _ h
  exact ⟨params, by simpa using hsub, by simpa using hall⟩

/-- An input and an output are never described alike. -/
theorem note_ne_of_picks {choices : List Choice}
    (hpicked : ∀ x ∈ choices, ∃ p found sel, Selection.Picks p found sel x) :
    ∀ x ∈ choices, ∀ y ∈ choices, x.input?.isSome = true → y.output?.isSome = true → x.entry.2 ≠ y.entry.2 := by
  intro x hx y hy hinput houtput heq
  obtain ⟨p, found, sel, hx⟩ := hpicked x hx
  obtain ⟨q, found', sel', hy⟩ := hpicked y hy
  have hletter := hx.head?_note
  rw [heq, hy.head?_note] at hletter
  cases x with
  | input param note binding =>
    cases y with
    | input param' note' binding' => cases houtput
    | output note' plan => simp at hletter
  | output note plan => cases hinput

/-! ## The table that is added -/

/-- A run that succeeds has bound the parameters and gone through the rows. -/
theorem execute_eq_ok {f : Forest} {fs : FileSystem} {parent : TableId} {routine : Routine τ} {registry : Registry}
    {config : ResolverConfig} {chooser : Chooser σ} {now : Moment} {s : σ} {r : τ} {id : TableId}
    (h : (execute f fs parent routine registry config chooser now s r).result = .ok id) :
    ∃ source b s', f.table parent = .ok source ∧
      resolve registry config source routine.spec chooser s = (.ok b, s') ∧
      execute f fs parent routine registry config chooser now s r =
        runBound f parent source fs routine b now s' r := by
  -- a run that succeeds has found its table and bound its parameters
  unfold execute at h ⊢
  cases hsource : f.table parent with
  | error e =>
    rw [hsource] at h
    cases h
  | ok source =>
    rw [hsource] at h
    dsimp only at h ⊢
    rcases hresolve : resolve registry config source routine.spec chooser s with ⟨e | b, s'⟩
    · rw [hresolve] at h
      cases h
    · exact ⟨source, b, s', rfl, hresolve, rfl⟩

/-- The table that a run adds has the record of the bindings. -/
theorem creation_of_runBound {f : Forest} {parent : TableId} {source : Table} {fs : FileSystem}
    {routine : Routine τ} {b : Bindings} {now : Moment} {s : σ} {r : τ} {id : TableId}
    (h : (runBound f parent source fs routine b now s r).result = .ok id) :
    ∃ t, (runBound f parent source fs routine b now s r).forest.table id = .ok t ∧
      t.creation = some ⟨routine.spec.name, b.selections, now⟩ := by
  unfold runBound at h ⊢
  cases hprepare : prepareResult source routine.spec.name b.outputs with
  | error e =>
    rw [hprepare] at h
    cases h
  | ok start =>
    rw [hprepare] at h
    dsimp only at h ⊢
    -- the record is made when all rows are done, and goes into the forest with the result
    rcases hrows : runRows routine b source start fs r (List.range source.rows) with ⟨e | t, files, state⟩
    · rw [hrows] at h
      cases h
    · rw [hrows] at h
      let made := { t with creation := some ⟨routine.spec.name, b.selections, now⟩ }
      dsimp only at h ⊢
      rcases hinsert : f.insertChild parent made with e | ⟨id', f'⟩
      · rw [hinsert] at h
        cases h
      · rw [hinsert] at h
        obtain rfl := Except.ok.inj h
        have hadds := Forest.addsChild_of_insertChild hinsert
        exact ⟨made, Forest.table_eq_ok.2 ⟨_, hadds.added, rfl⟩, rfl⟩

/-- **What the record of a run tells.**  If a run succeeds, some parameters of the routine were bound, in the order of
their declaration, each to one of its candidates, and the table that is added tells under their names what they were
bound to.  Every bound parameter has an entry, and of parameters of one name the entry tells what the last was bound
to.  So all are told exactly if those of one name have one description, and never if an input and an output have one
name. -/
theorem execute_records (f : Forest) (fs : FileSystem) (parent : TableId) (routine : Routine τ) (registry : Registry)
    (config : ResolverConfig) (chooser : Chooser σ) (now : Moment) (s : σ) (r : τ) {id : TableId}
    (hok : (execute f fs parent routine registry config chooser now s r).result = .ok id) :
    ∃ source s' params choices result record,
      f.table parent = .ok source ∧
      resolve registry config source routine.spec chooser s = (.ok (.ofChoices routine.spec.name choices), s') ∧
      params.Sublist routine.spec.params ∧
      List.Forall₂ (fun p x => x.entry.1 = p.name ∧
        ∃ sel, Selection.Picks p (candidates registry config source p) sel x) params choices ∧
      (execute f fs parent routine registry config chooser now s r).forest.table id = .ok result ∧
      result.creation = some ⟨routine.spec.name, record, now⟩ ∧
      Choice.Recorded choices record ∧
      ∀ x ∈ choices, ∀ y ∈ choices, x.input?.isSome = true → y.output?.isSome = true → x.entry.1 = y.entry.1 →
        ¬(record.get? x.entry.1 = some x.entry.2 ∧ record.get? y.entry.1 = some y.entry.2) := by
  obtain ⟨source, b, s', hsource, hresolve, hrun⟩ := execute_eq_ok hok
  rw [hrun] at hok ⊢
  obtain ⟨result, hresult, hcreation⟩ := creation_of_runBound hok
  obtain ⟨calls, choices, hdialogue, rfl⟩ := dialogue_of_resolve hresolve
  obtain ⟨params, hsub, hpicks⟩ := hdialogue.picks
  refine ⟨source, s', params, choices, result, _, hsource, hresolve, hsub, hpicks, hresult, hcreation,
    Choice.recorded_ofList choices, ?_⟩
  have hpicked : ∀ x ∈ choices, ∃ p found sel, Selection.Picks p found sel x := by
    intro x hx
    obtain ⟨i, hi, rfl⟩ := List.getElem_of_mem hx
    exact ⟨_, _, (hpicks.get (hpicks.length_eq ▸ hi) hi).2⟩
  intro x hx y hy hinput houtput hname htold
  -- one entry would have to tell both, and no input is described as an output is
  apply note_ne_of_picks hpicked x hx y hy hinput houtput
  apply Option.some.inj
  rw [← htold.1, ← htold.2, hname]

/-! ## A routine that copies numbers -/

namespace Copies

/-- A number is taken and a number is given, under names of their own or under one name. -/
def routine (given : String) : Routine Unit where
  spec := ⟨"copy", [⟨"n", none, .input, .i64, none, .any, true⟩, ⟨given, none, .output, .i64, none, .any, true⟩]⟩
  run inputs s :=
    match (inputs.take "n" .i64).1 with
    | .ok (n : Int64) => (.ok (RowOutputs.empty.set given ⟨.i64, n⟩), s)
    | .error _ => (.error "no number", s)

def source : Table :=
  { Table.empty "counts" with
    columns := [⟨.ofKind "n" .integer, [⟨.integer 1, ⟨"integer"⟩⟩, ⟨.integer 2, ⟨"integer"⟩⟩]⟩]
    rows := 2 }

def forest : Forest := (Forest.empty.insertRoot source).2

def outcome (given : String) : Outcome Unit Unit :=
  execute forest ⟨[], []⟩ ⟨0⟩ (routine given) .builtin .standard firstCandidate .year2000 () ()

/-- What the table that was added tells of the parameters. -/
def told (given : String) : Option (Dict String) :=
  (outcome given).forest.table ⟨1⟩ |>.toOption.bind fun t => t.creation.map Creation.parameters

end Copies

open Copies in
/-- Under names of their own both parameters are told. -/
theorem copies_told :
    (outcome "m").result = .ok ⟨1⟩ ∧
      told "m" = some (.ofList [("n", "column \"n\" via integer-i64"),
        ("m", "new integer column via integer-i64")]) ∧
      ∃ choices record, told "m" = some record ∧ Choice.Recorded choices record := by
  have hok : (outcome "m").result = .ok ⟨1⟩ := by decide +kernel
  obtain ⟨-, -, -, choices, result, record, -, -, -, -, hresult, hcreation, hrecorded, -⟩ :=
    execute_records forest ⟨[], []⟩ ⟨0⟩ (routine "m") .builtin .standard firstCandidate .year2000 () () hok
  refine ⟨hok, by decide +kernel, choices, record, ?_, hrecorded⟩
  unfold told outcome
  rw [hresult]
  show result.creation.map Creation.parameters = some record
  rw [hcreation]
  rfl

open Copies in
/-- **Under one name the input is not told**: it was bound to a column, and the record tells of the new column of the
output. -/
theorem copies_not_told :
    (outcome "n").result = .ok ⟨1⟩ ∧
      (∃ b reader, (resolve .builtin .standard source (routine "n").spec firstCandidate ()).1 = .ok b ∧
        b.input? "n" = some (.column 0 reader) ∧
        (Candidate.column 0 "n" reader).describe = "column \"n\" via integer-i64") ∧
      told "n" = some (.ofList [("n", "new integer column via integer-i64")]) ∧
      (told "n").bind (·.get? "n") ≠ some "column \"n\" via integer-i64" := by
  have htold : told "n" = some (.ofList [("n", "new integer column via integer-i64")]) := by decide +kernel
  refine ⟨by decide +kernel, ⟨_, _, rfl, rfl, by decide +kernel⟩, htold, ?_⟩
  rw [htold]
  decide +kernel

end TableForest
