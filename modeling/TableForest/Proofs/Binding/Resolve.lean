import TableForest.Proofs.Binding.Candidates
import TableForest.Proofs.Binding.Dialogue

/-!
# What parameters are bound to

The bindings that `resolve` answers with belong to parameters of the routine, in the order of their
declaration, and each of them comes from a candidate of its parameter.

## The architecture

* **`InputBinding.Suits`** and **`OutputPlan.Proper`** are what a binding inherits from the candidate it was made
  of: a reader for the column or the constant, or a writer of the registry and the place of its files.
* **`Dialogue.chosen`** picks the choices of one sort out of a dialogue, each with its parameter.
* **`within_of_resolve`** applies it to inputs and to outputs.
-/

namespace TableForest

variable {registry : Registry} {config : ResolverConfig} {t : Table} {σ : Type}

/-! ## Choices -/

/-- An input parameter is bound to a column that its reader reads, or to a constant of the reader's kind. -/
inductive InputBinding.Suits (t : Table) (p : ParamSpec) : InputBinding → Prop where
  | column {index : Nat} {col : Column} {r : Reader} (hcol : t.columns[index]? = some col)
      (hreads : p.ReadsFrom col.info r.info) : Suits t p (.column index r)
  | constant {c : Cell} {r : Reader} (hkind : c.kind = r.info.kind) (htype : r.info.type = p.type) :
      Suits t p (.constant c r)

/-- The plan writes an output parameter through a writer of the registry for it. -/
structure OutputPlan.Proper (registry : Registry) (plan : OutputPlan) : Prop where
  output : plan.param.direction = .output
  registered : plan.writer ∈ registry.writers
  type : plan.writer.info.type = plan.param.type
  link : plan.link = linkTemplateFor plan.writer.info plan.param

namespace Selection.Picks

variable {p : ParamSpec} {s : Selection} {x : Choice}

/-- An input is bound to what its candidate promised. -/
theorem suits (h : s.Picks p (candidates registry config t p) x) {i : String × InputBinding}
    (hx : x.input? = some i) : p.isInput = true ∧ i.1 = p.name ∧ i.2.Suits t p := by
  cases h with
  | column hc =>
    obtain rfl := Option.some.inj hx
    obtain ⟨hinput, -, col, hcol, -, hreads⟩ := column_mem_candidates.1 (List.mem_of_getElem? hc)
    exact ⟨decide_eq_true hinput, rfl, .column hcol hreads⟩
  | constant hc hread =>
    obtain rfl := Option.some.inj hx
    obtain ⟨hinput, -, hreads⟩ := constant_mem_candidates.1 (List.mem_of_getElem? hc)
    exact ⟨decide_eq_true hinput, rfl, .constant (Value.kind_of_read? hread) hreads.type⟩
  | newColumn hc => cases hx

/-- An output is written through the writer that its candidate offered. -/
theorem proper (h : s.Picks p (candidates registry config t p) x) {plan : OutputPlan}
    (hx : x.output? = some plan) : (!p.isInput) = true ∧ plan.param = p ∧ plan.Proper registry := by
  cases h with
  | column hc => cases hx
  | constant hc hread => cases hx
  | newColumn hc =>
    obtain rfl := Option.some.inj hx
    obtain ⟨houtput, hregistered, hwrites, hlink⟩ := newColumn_mem_candidates.1 (List.mem_of_getElem? hc)
    exact ⟨by simp [ParamSpec.isInput, houtput], rfl, houtput, hregistered, hwrites.type, hlink⟩

end Selection.Picks

/-! ## Choices of a dialogue -/

section

variable {α : Type} {select : Choice → Option α} {sort : ParamSpec → Bool} {R : ParamSpec → α → Prop}

/-- Choices of one sort belong to parameters of that sort that were asked for, in order. -/
theorem chosen_of_gives
    (hR : ∀ {p s x a}, Selection.Picks p (candidates registry config t p) s x → select x = some a →
      sort p = true ∧ R p a)
    {calls : List Call} {given : List (Option Choice)} (h : List.Forall₂ Call.Gives calls given)
    (hfound : ∀ c ∈ calls, c.found = candidates registry config t c.param) :
    ∃ params, params.Sublist ((calls.map Call.param).filter sort) ∧
      List.Forall₂ R params (given.reduceOption.filterMap select) := by
  induction h with
  | nil => exact ⟨[], .slnil, .nil⟩
  | @cons c g calls given hgives hrest ih =>
    obtain ⟨hfirst, hothers⟩ := List.forall_mem_cons.1 hfound
    obtain ⟨params, hsub, hall⟩ := ih hothers
    have hskip : params.Sublist (((c :: calls).map Call.param).filter sort) :=
      hsub.trans ((List.sublist_cons_self _ _).filter _)
    cases hgives with
    | nothing hoptional => exact ⟨params, hskip, by simpa using hall⟩
    | @choice p found s x hpicks =>
      obtain rfl : found = candidates registry config t p := hfirst
      -- the choice is of the sort, or it is passed over as if nothing had been chosen
      cases hx : select x with
      | none => exact ⟨params, hskip, by simpa [hx] using hall⟩
      | some a =>
        obtain ⟨hsort, ha⟩ := hR hpicks hx
        exact ⟨p :: params, by simpa [hsort] using hsub, by simpa [hx] using List.Forall₂.cons ha hall⟩

/-- **The choices of one sort in a complete dialogue** belong to parameters of that sort, in order. -/
theorem Dialogue.chosen
    (hR : ∀ {p s x a}, Selection.Picks p (candidates registry config t p) s x → select x = some a →
      sort p = true ∧ R p a)
    {declared : List ParamSpec} {calls : List Call} {choices : List Choice}
    (h : Dialogue (questions registry config t declared) calls (.ok choices)) :
    ∃ params, params.Sublist (declared.filter sort) ∧ List.Forall₂ R params (choices.filterMap select) := by
  -- the candidates in the questions are those of the parameters
  have hown : ∀ entry ∈ questions registry config t declared, entry.2 = candidates registry config t entry.1 := by
    intro entry hentry
    obtain ⟨p, -, rfl⟩ := List.mem_map.1 hentry
    rfl
  have hdeclared : ((questions registry config t declared).map Prod.fst).Sublist declared := by
    unfold questions
    rw [List.map_map]
    simp [Function.comp_def]
  -- nothing but these two facts is needed of the questions
  generalize questions registry config t declared = asked at h hown hdeclared
  cases h with
  | complete hgives =>
    obtain ⟨params, hsub, hall⟩ := chosen_of_gives hR hgives fun c hc => hown c.question (List.mem_map_of_mem hc)
    rw [List.map_map] at hdeclared
    exact ⟨params, hsub.trans (hdeclared.filter _), hall⟩

end

/-! ## Bindings -/

theorem map_eq_map_of_forall₂ {α β γ : Type} {f : α → γ} {g : β → γ} {xs : List α} {ys : List β}
    (h : List.Forall₂ (fun x y => f x = g y) xs ys) : xs.map f = ys.map g := by
  induction h with
  | nil => rfl
  | cons hfirst _ ih => rw [List.map_cons, List.map_cons, hfirst, ih]

variable {spec : RoutineSpec} {chooser : Chooser σ} {s s' : σ} {b : Bindings}

/-- **Inputs are bound to what suits them**: some input parameters, in order, each to a column or a constant. -/
theorem suits_of_resolve (h : resolve registry config t spec chooser s = (.ok b, s')) :
    ∃ params : List ParamSpec, params.Sublist spec.inputs ∧
      List.Forall₂ (fun p i => i.1 = p.name ∧ InputBinding.Suits t p i.2) params b.inputs := by
  obtain ⟨calls, choices, hdialogue, rfl⟩ := dialogue_of_resolve h
  exact hdialogue.chosen fun hpicks hx => hpicks.suits hx

/-- **Bindings follow the declaration.**  The bound inputs and the bound outputs of a routine are some of its
parameters, each list in the order in which they are declared, and each output is written through a writer
of the registry for it. -/
theorem within_of_resolve (h : resolve registry config t spec chooser s = (.ok b, s')) :
    b.routine = spec.name ∧
      (b.inputs.map Prod.fst).Sublist (spec.inputs.map ParamSpec.name) ∧
      (b.outputs.map OutputPlan.param).Sublist spec.outputs ∧
      ∀ plan ∈ b.outputs, plan.Proper registry := by
  obtain ⟨ins, hins, hsuits⟩ := suits_of_resolve h
  obtain ⟨calls, choices, hdialogue, rfl⟩ := dialogue_of_resolve h
  obtain ⟨outs, houts, hproper⟩ := hdialogue.chosen fun hpicks hx => hpicks.proper hx
  have hnames := map_eq_map_of_forall₂ (hsuits.imp fun _ _ hi => hi.1.symm)
  have hparams := map_eq_map_of_forall₂ (hproper.imp fun p plan hplan => show id p = plan.param from hplan.1.symm)
  rw [List.map_id] at hparams
  refine ⟨rfl, hnames ▸ hins.map _, hparams ▸ houts, fun plan hplan => ?_⟩
  obtain ⟨k, hk, rfl⟩ := List.getElem_of_mem hplan
  exact (hproper.get (hproper.length_eq ▸ hk) hk).2

end TableForest
