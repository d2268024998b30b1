import Mathlib.Data.List.Forall2
import Mathlib.Data.List.ReduceOption
import TableForest.Binding.Resolver
import TableForest.Proofs.Except

/-!
# The dialogue with a chooser

While parameters are resolved a chooser is asked for one of them after the other.  Whatever it answers, and
however its answers depend on its state, the calls that it gets and what is made of its answers are fixed by
the candidates and the answers themselves.

## The architecture

* **`Chooser.logged`** notes every call with its answer, so the dialogue is part of the final state.
* **`Selection.Picks`** and **`Selection.Faulty`** tell the selections that can be bound from the others, with
  what comes of them; **`Call.Gives`** and **`Call.Fails`** do the same for all answers.
* **`chooseEach_logged`** is the loop: calls that give something, up to the end or to one that fails.
* **`resolve_fails`** leads from a failure to the call that fails.
* **`resolve_dialogue`** puts the listing of the candidates before it.
-/

namespace TableForest

variable {registry : Registry} {config : ResolverConfig} {t : Table} {σ : Type}

/-! ## Questions -/

/-- The parameters that have candidates, each with them, in the order of their declaration. -/
def questions (registry : Registry) (config : ResolverConfig) (t : Table) (params : List ParamSpec) :
    List (ParamSpec × List Candidate) :=
  (params.filter fun p => !(candidates registry config t p).isEmpty).map fun p => (p, candidates registry config t p)

/-- The first parameter that has to be bound and has no candidates. -/
def unanswerable? (registry : Registry) (config : ResolverConfig) (t : Table) (params : List ParamSpec) :
    Option ParamSpec :=
  params.find? fun p => p.required && (candidates registry config t p).isEmpty

theorem enumerate_eq (params : List ParamSpec) :
    enumerate registry config t params =
      match unanswerable? registry config t params with
      | some p => .error (.noCandidates p.name t.name)
      | none => .ok (questions registry config t params) := by
  induction params with
  | nil => rfl
  | cons p rest ih =>
    unfold enumerate unanswerable? questions
    -- a parameter without candidates is left out, unless it has to be bound
    cases hempty : (candidates registry config t p).isEmpty with
    | true =>
      cases hrequired : p.required with
      | true => simp [hempty, hrequired]
      | false =>
        simp only [hempty, hrequired, List.find?_cons, List.filter_cons, Bool.false_and, Bool.not_true,
          Bool.false_eq_true, if_true, if_false]
        exact ih
    | false =>
      simp only [hempty, List.find?_cons, List.filter_cons, Bool.and_false, Bool.not_false, Bool.false_eq_true,
        if_true, if_false, List.map_cons, ih, unanswerable?, questions]
      cases rest.find? fun p => p.required && (candidates registry config t p).isEmpty <;> rfl

/-! ## Answers -/

/-- What a parameter is bound to, with the note that says so. -/
inductive Choice where
  | input (param note : String) (binding : InputBinding)
  | output (note : String) (plan : OutputPlan)

namespace Choice

def input? : Choice → Option (String × InputBinding)
  | input param _ binding => some (param, binding)
  | output _ _ => none

def output? : Choice → Option OutputPlan
  | input _ _ _ => none
  | output _ plan => some plan

/-- The name of the parameter with the note. -/
def entry : Choice → String × String
  | input param note _ => (param, note)
  | output note plan => (plan.param.name, note)

end Choice

namespace Bindings

/-- The bindings that choices make, in their order. -/
def ofChoices (routine : String) (choices : List Choice) : Bindings where
  routine := routine
  inputs := choices.filterMap Choice.input?
  outputs := choices.filterMap Choice.output?
  selections := .ofList (choices.map Choice.entry)

/-- The bindings with one more choice, or as they are. -/
def add (b : Bindings) : Option Choice → Bindings
  | none => b
  | some (.input param note binding) => b.addInput param note binding
  | some (.output note plan) => b.addOutput note plan

theorem ofChoices_append (routine : String) (choices : List Choice) (given : Option Choice) :
    ofChoices routine (choices ++ given.toList) = (ofChoices routine choices).add given := by
  cases given with
  | none => simp [add]
  | some x =>
    have hselections : Dict.ofList ((choices ++ [x]).map Choice.entry) =
        (Dict.ofList (choices.map Choice.entry)).insert x.entry.1 x.entry.2 := by
      unfold Dict.ofList
      rw [List.map_append, List.foldl_append]
      rfl
    unfold ofChoices
    rw [Option.toList_some, List.filterMap_append, List.filterMap_append, hselections]
    cases x with
    | input param note binding => simp [add, addInput, Choice.input?, Choice.output?, Choice.entry]
    | output note plan => simp [add, addOutput, Choice.input?, Choice.output?, Choice.entry]

end Bindings

/-- A selection binds a parameter to one of its candidates: a column or a new column as it is, and a constant
with a text that its reader's kind can be read from. -/
inductive Selection.Picks (p : ParamSpec) (found : List Candidate) : Selection → Choice → Prop where
  | column {i index : Nat} {name : String} {reader : Reader}
      (hc : found[i]? = some (.column index name reader)) :
      Picks p found (.candidate i)
        (.input p.name (Candidate.column index name reader).describe (.column index reader))
  | constant {i : Nat} {text : String} {reader : Reader} {v : Value} (hc : found[i]? = some (.constant reader))
      (hread : Value.read? reader.info.kind text = some v) :
      Picks p found (.constant i text)
        (.input p.name s!"constant {text}" (.constant ⟨v, reader.info.constantSubtype⟩ reader))
  | newColumn {i : Nat} {writer : Writer} {link : Option LinkTemplate}
      (hc : found[i]? = some (.newColumn writer link)) :
      Picks p found (.candidate i) (.output (Candidate.newColumn writer link).describe ⟨p, writer, link⟩)

/-- What is wrong with a selection. -/
inductive Selection.Faulty (found : List Candidate) : Selection → SelectionFault → Prop where
  | outOfRange {s : Selection} (hlen : found.length ≤ s.index) :
      Faulty found s (.outOfRange s.index found.length)
  | needsValue {i : Nat} {reader : Reader} (hc : found[i]? = some (.constant reader)) :
      Faulty found (.candidate i) .needsValue
  | notConstant {i : Nat} {text : String} {c : Candidate} (hc : found[i]? = some c) (hkind : c.isConstant = false) :
      Faulty found (.constant i text) (.notConstant c.describe)
  | unreadable {i : Nat} {text : String} {reader : Reader} (hc : found[i]? = some (.constant reader))
      (hread : Value.read? reader.info.kind text = none) :
      Faulty found (.constant i text) (.unreadable (.unreadable reader.info.kind text))

namespace Selection

variable {p : ParamSpec} {found : List Candidate} {s : Selection}

/-- A selection can be bound or has a fault. -/
theorem picks_or_faulty (p : ParamSpec) (found : List Candidate) (s : Selection) :
    (∃ x, s.Picks p found x) ∨ ∃ fault, s.Faulty found fault := by
  -- the checks of the resolver, in its order: the number, the sort, and the text of a constant
  cases hc : found[s.index]? with
  | none => exact .inr ⟨_, .outOfRange (List.getElem?_eq_none_iff.1 hc)⟩
  | some c =>
    cases s with
    | candidate i =>
      cases c with
      | column index name reader => exact .inl ⟨_, .column hc⟩
      | constant reader => exact .inr ⟨_, .needsValue hc⟩
      | newColumn writer link => exact .inl ⟨_, .newColumn hc⟩
    | constant i text =>
      cases c with
      | column index name reader => exact .inr ⟨_, .notConstant hc rfl⟩
      | constant reader =>
        cases hread : Value.read? reader.info.kind text with
        | some v => exact .inl ⟨_, .constant hc hread⟩
        | none => exact .inr ⟨_, .unreadable hc hread⟩
      | newColumn writer link => exact .inr ⟨_, .notConstant hc rfl⟩

theorem Picks.take {x : Choice} (h : s.Picks p found x) (b : Bindings) :
    b.take p found (some s) = .ok (b.add (some x)) := by
  cases h with
  | column hc => simp [Bindings.take, Bindings.bind, index, hc, Bindings.add]
  | constant hc hread =>
    simp [Bindings.take, Bindings.bind, index, hc, Cell.parse, Value.parse, hread, Except.map, Bindings.add]
  | newColumn hc => simp [Bindings.take, Bindings.bind, index, hc, Bindings.add]

theorem Faulty.take {fault : SelectionFault} (h : s.Faulty found fault) (p : ParamSpec) (b : Bindings) :
    b.take p found (some s) = .error (.invalidSelection p.name fault) := by
  cases h with
  | outOfRange hlen => simp [Bindings.take, List.getElem?_eq_none_iff.2 hlen]
  | needsValue hc => simp [Bindings.take, Bindings.bind, index, hc]
  | @notConstant i text c hc hkind =>
    cases c with
    | column index name reader => simp [Bindings.take, Bindings.bind, Selection.index, hc]
    | constant reader => cases hkind
    | newColumn writer link => simp [Bindings.take, Bindings.bind, Selection.index, hc]
  | unreadable hc hread =>
    simp [Bindings.take, Bindings.bind, index, hc, Cell.parse, Value.parse, hread, Except.map]

end Selection

/-! ## Calls -/

/-- A call of a chooser: the parameter with its candidates, and the answer. -/
structure Call where
  param : ParamSpec
  found : List Candidate
  answer : Except BindingError (Option Selection)

def Call.question (c : Call) : ParamSpec × List Candidate :=
  (c.param, c.found)

/-- A chooser that answers as another one does and notes its calls. -/
def Chooser.logged (chooser : Chooser σ) : Chooser (σ × List Call) := fun p found s =>
  let (answer, next) := chooser p found s.1
  (answer, next, s.2 ++ [⟨p, found, answer⟩])

/-- The dialogue goes on after the call, with or without a choice. -/
inductive Call.Gives : Call → Option Choice → Prop where
  | nothing {p : ParamSpec} {found : List Candidate} (hoptional : p.required = false) :
      Gives ⟨p, found, .ok none⟩ none
  | choice {p : ParamSpec} {found : List Candidate} {s : Selection} {x : Choice} (hpicks : s.Picks p found x) :
      Gives ⟨p, found, .ok (some s)⟩ (some x)

/-- The dialogue ends with the call. -/
inductive Call.Fails : Call → BindingError → Prop where
  /-- The failure of a chooser is handed on, whatever it is. -/
  | asking {p : ParamSpec} {found : List Candidate} {e : BindingError} : Fails ⟨p, found, .error e⟩ e
  | missing {p : ParamSpec} {found : List Candidate} (hrequired : p.required = true) :
      Fails ⟨p, found, .ok none⟩ (.missingSelection p.name)
  | selecting {p : ParamSpec} {found : List Candidate} {s : Selection} {fault : SelectionFault}
      (hfaulty : s.Faulty found fault) : Fails ⟨p, found, .ok (some s)⟩ (.invalidSelection p.name fault)

namespace Call

theorem gives_or_fails (c : Call) : (∃ given, c.Gives given) ∨ ∃ e, c.Fails e := by
  obtain ⟨p, found, answer⟩ := c
  cases answer with
  | error e => exact .inr ⟨e, .asking⟩
  | ok answer =>
    cases answer with
    | none =>
      cases hrequired : p.required with
      | true => exact .inr ⟨_, .missing hrequired⟩
      | false => exact .inl ⟨none, .nothing hrequired⟩
    | some s =>
      rcases s.picks_or_faulty p found with ⟨x, hpicks⟩ | ⟨fault, hfaulty⟩
      · exact .inl ⟨some x, .choice hpicks⟩
      · exact .inr ⟨_, .selecting hfaulty⟩

variable {chooser : Chooser σ} {p : ParamSpec} {found : List Candidate} {s next : σ}
  {answer : Except BindingError (Option Selection)}

theorem Gives.chooseEach {given : Option Choice} (h : Gives ⟨p, found, answer⟩ given)
    (hasked : chooser p found s = (answer, next)) (b : Bindings) (rest : List (ParamSpec × List Candidate)) :
    chooseEach chooser b s ((p, found) :: rest) = chooseEach chooser (b.add given) next rest := by
  rw [TableForest.chooseEach, hasked]
  cases h with
  | nothing hoptional => simp [Bindings.take, hoptional, Bindings.add]
  | choice hpicks => simp [hpicks.take]

theorem Fails.chooseEach {e : BindingError} (h : Fails ⟨p, found, answer⟩ e)
    (hasked : chooser p found s = (answer, next)) (b : Bindings) (rest : List (ParamSpec × List Candidate)) :
    chooseEach chooser b s ((p, found) :: rest) = (.error e, next) := by
  rw [TableForest.chooseEach, hasked]
  cases h with
  | asking => rfl
  | missing hrequired => simp [Bindings.take, hrequired]
  | selecting hfaulty => simp [hfaulty.take]

end Call

/-! ## The dialogue -/

/-- Calls that give something one after the other, up to the last question or to a call that fails. -/
inductive Dialogue : List (ParamSpec × List Candidate) → List Call → Except BindingError (List Choice) → Prop where
  | complete {calls : List Call} {given : List (Option Choice)} (hgives : List.Forall₂ Call.Gives calls given) :
      Dialogue (calls.map Call.question) calls (.ok given.reduceOption)
  | failed {calls : List Call} {given : List (Option Choice)} {last : Call} {e : BindingError}
      (hgives : List.Forall₂ Call.Gives calls given) (hfails : last.Fails e)
      (unasked : List (ParamSpec × List Candidate)) :
      Dialogue (calls.map Call.question ++ last.question :: unasked) (calls ++ [last]) (.error e)

theorem Dialogue.cons {asked : List (ParamSpec × List Candidate)} {c : Call} {calls : List Call}
    {given : Option Choice} {outcome : Except BindingError (List Choice)} (hgives : c.Gives given)
    (h : Dialogue asked calls outcome) :
    Dialogue (c.question :: asked) (c :: calls) (outcome.map (given.toList ++ ·)) := by
  cases h with
  | complete hrest =>
    have hreduce (rest : List (Option Choice)) :
        given.toList ++ rest.reduceOption = (given :: rest).reduceOption := by
      cases given with
      | none => simp
      | some x => simp
    rw [Except.map, hreduce]
    exact .complete (.cons hgives hrest)
  | failed hrest hfails unasked => exact .failed (.cons hgives hrest) hfails unasked

/-- A chooser is asked one question after the other, whether its calls are noted or not. -/
theorem chooseEach_logged (chooser : Chooser σ) (routine : String) (asked : List (ParamSpec × List Candidate)) :
    ∀ (choices : List Choice) (s : σ) (log : List Call), ∃ outcome calls s',
      chooseEach chooser.logged (.ofChoices routine choices) (s, log) asked =
          (outcome.map fun more => .ofChoices routine (choices ++ more), s', log ++ calls) ∧
        chooseEach chooser (.ofChoices routine choices) s asked =
          (outcome.map fun more => .ofChoices routine (choices ++ more), s') ∧
        Dialogue asked calls outcome := by
  -- by induction on the questions, whatever was chosen and noted before
  induction asked with
  | nil =>
    intro choices s log
    exact ⟨.ok [], [], s, by simp [chooseEach, Except.map], by simp [chooseEach, Except.map], .complete .nil⟩
  | cons entry rest ih =>
    obtain ⟨p, found⟩ := entry
    intro choices s log
    cases hasked : chooser p found s with
    | mk answer next =>
      let c : Call := ⟨p, found, answer⟩
      have hlogged : chooser.logged p found (s, log) = (answer, next, log ++ [c]) := by
        simp [Chooser.logged, hasked, c]
      rcases c.gives_or_fails with ⟨given, hgives⟩ | ⟨e, hfails⟩
      · obtain ⟨outcome, calls, s', hrun, hplain, hdialogue⟩ :=
          ih (choices ++ given.toList) next (log ++ [c])
        rw [Bindings.ofChoices_append] at hrun hplain
        have houtcome :
            (outcome.map (given.toList ++ ·)).map (fun more => Bindings.ofChoices routine (choices ++ more)) =
              outcome.map fun more => .ofChoices routine (choices ++ given.toList ++ more) := by
          cases outcome with
          | error e => rfl
          | ok more => simp [Except.map]
        refine ⟨outcome.map (given.toList ++ ·), c :: calls, s', ?_, ?_, hdialogue.cons hgives⟩
        · rw [hgives.chooseEach hlogged, hrun, houtcome, List.append_assoc, List.singleton_append]
        · rw [hgives.chooseEach hasked, hplain, houtcome]
      · exact ⟨.error e, [c], next, hfails.chooseEach hlogged _ _, hfails.chooseEach hasked _ _,
          .failed .nil hfails rest⟩

/-- Bindings come of a dialogue that is complete. -/
theorem dialogue_of_resolve {spec : RoutineSpec} {chooser : Chooser σ} {s s' : σ} {b : Bindings}
    (h : resolve registry config t spec chooser s = (.ok b, s')) :
    ∃ calls choices, Dialogue (questions registry config t spec.params) calls (.ok choices) ∧
      b = .ofChoices spec.name choices := by
  unfold resolve at h
  rw [enumerate_eq] at h
  cases hnone : unanswerable? registry config t spec.params with
  | some p =>
    rw [hnone] at h
    cases (Prod.mk.inj h).1
  | none =>
    rw [hnone] at h
    -- the plain run and the logged one come to the same, so the answer is that of the dialogue
    obtain ⟨outcome, calls, s'', -, hplain, hdialogue⟩ :=
      chooseEach_logged chooser spec.name (questions registry config t spec.params) [] s []
    have hanswer := (Prod.mk.inj (hplain.symm.trans h)).1
    obtain ⟨choices, rfl, rfl⟩ := Except.map_eq_ok.1 hanswer
    exact ⟨calls, choices, hdialogue, rfl⟩

/-- When the loop fails a call has failed, of one of the questions. -/
theorem chooseEach_fails {chooser : Chooser σ} {asked : List (ParamSpec × List Candidate)} {e : BindingError} :
    ∀ {b : Bindings} {s s' : σ}, chooseEach chooser b s asked = (.error e, s') →
      ∃ q ∈ asked, ∃ s₁, Call.Fails ⟨q.1, q.2, (chooser q.1 q.2 s₁).1⟩ e := by
  induction asked with
  | nil =>
    intro b s s' h
    cases h
  | cons q rest ih =>
    intro b s s' h
    rcases hasked : chooser q.1 q.2 s with ⟨answer, next⟩
    -- a call that gives something is followed by the others, and the first that fails ends them
    rcases (Call.mk q.1 q.2 answer).gives_or_fails with ⟨given, hgives⟩ | ⟨e', hfails⟩
    · rw [hgives.chooseEach hasked] at h
      obtain ⟨q', hq', hlast⟩ := ih h
      exact ⟨q', List.mem_cons_of_mem q hq', hlast⟩
    · rw [hfails.chooseEach hasked] at h
      obtain rfl := Except.error.inj (Prod.mk.inj h).1
      refine ⟨q, List.mem_cons_self, s, ?_⟩
      rw [hasked]
      exact hfails

/-- **When resolving fails**, a parameter has no candidates or the call for one of them has failed. -/
theorem resolve_fails {spec : RoutineSpec} {chooser : Chooser σ} {s : σ} {e : BindingError}
    (h : (resolve registry config t spec chooser s).1 = .error e) :
    (∃ p, e = .noCandidates p t.name) ∨
      ∃ p ∈ spec.params, ∃ s₁, Call.Fails
        ⟨p, candidates registry config t p, (chooser p (candidates registry config t p) s₁).1⟩ e := by
  unfold resolve at h
  rw [enumerate_eq] at h
  cases hnone : unanswerable? registry config t spec.params with
  | some p =>
    rw [hnone] at h
    exact .inl ⟨p.name, (Except.error.inj h).symm⟩
  | none =>
    rw [hnone] at h
    obtain ⟨q, hq, s₁, hfails⟩ := chooseEach_fails (Prod.ext h rfl)
    obtain ⟨p, hp, rfl⟩ := List.mem_map.1 hq
    exact .inr ⟨p, List.mem_of_mem_filter hp, s₁, hfails⟩

/-- **Resolving is a dialogue with the chooser.**  If a parameter that has to be bound has no candidates, the first
of them is the failure and the chooser is never called.  Otherwise the chooser is called for each parameter that has
candidates, in the order of declaration, once and with these candidates, until a call fails: the chooser itself
fails, it leaves out a parameter that has to be bound, or its selection has a fault.  If no call fails, the bindings
are those of the parameters for which something was selected, in order.  That the calls are noted makes no
difference. -/
theorem resolve_dialogue (registry : Registry) (config : ResolverConfig) (t : Table) (spec : RoutineSpec)
    (chooser : Chooser σ) (s : σ) :
    ∃ outcome calls s',
      resolve registry config t spec chooser.logged (s, []) =
          (outcome.map (.ofChoices spec.name), s', calls) ∧
        resolve registry config t spec chooser s = (outcome.map (.ofChoices spec.name), s') ∧
        match unanswerable? registry config t spec.params with
        | some p => outcome = .error (.noCandidates p.name t.name) ∧ calls = [] ∧ s' = s
        | none => Dialogue (questions registry config t spec.params) calls outcome := by
  unfold resolve
  rw [enumerate_eq]
  cases unanswerable? registry config t spec.params with
  | some p => exact ⟨.error (.noCandidates p.name t.name), [], s, rfl, rfl, rfl, rfl, rfl⟩
  | none => exact chooseEach_logged chooser spec.name (questions registry config t spec.params) [] s []

end TableForest
