import TableForest.Proofs.Binding.Preset
import TableForest.Proofs.Number.Exact
import TableForest.Yaml.Schema

/-!
# Constants of presets

A preset holds a constant as the scalar of a YAML document.  The chooser writes the scalar out, and the resolver reads
the text under the kind of the reader.  Both have their own words for what is not finite, so the text of an infinity
is refused; every other scalar comes back as the value that it denotes.

## The architecture

* **`Yaml.Denotes`** says which values a scalar denotes, and **`Yaml.read?_scalarText`** what becomes of them on the
  way through the text.
* **`resolve_gives`** leads from bindings back to the call of each parameter, as `resolve_fails` does from a failure.
* **`constant_of_preset`** says it of the chooser, of the resolver and of a whole routine.
-/

namespace TableForest

/-! ## Scalars -/

/-- The value is no infinity, and no number that is none. -/
def Value.isFinite : Value → Bool
  | numeric x => x.isFinite
  | _ => true

/-- The value of some kind that a scalar denotes.  Integers of a document have 64 bits, with or without a sign; as a
numeric value an integer is the number nearest to it. -/
inductive Yaml.Denotes : Yaml → Value → Prop where
  | logical (b : Bool) : Denotes (.bool b) (.logical b)
  | integer (n : Int64) : Denotes (.integer n.toInt) (.integer n)
  | whole {n : Int} (hn : isInteger n = true) : Denotes (.integer n) (.numeric (.ofInt n))
  | floating (x : Binary64) : Denotes (.floating x) (.numeric x)
  | text (s : String) : Denotes (.string s) (.text s)
  | fileLink (s : String) : Denotes (.string s) (.fileLink s)

/-- The words of YAML for what is not finite are no numbers. -/
theorem Binary.read?_yamlText_of_not_isFinite {x : Binary64} (h : x.isFinite = false) :
    Binary.read? (f := .binary64) (x.text yamlNumber) = none := by
  have hnan : Binary.read? (f := .binary64) yamlNumber.nan = none := by decide +kernel
  have hinfinite : Binary.read? (f := .binary64) yamlNumber.infinite = none := by decide +kernel
  have hnegative : Binary.read? (f := .binary64) ("-" ++ yamlNumber.infinite) = none := by decide +kernel
  unfold text
  split
  · exact hnan
  rw [h, if_neg Bool.false_ne_true]
  split
  · exact hnegative
  · exact hinfinite

/-- **A value that is finite is read back from the text of a scalar that denotes it**, and no other is. -/
theorem Yaml.read?_scalarText {y : Yaml} {v : Value} (h : y.Denotes v) :
    ∃ text, y.scalarText? = some text ∧ Value.read? v.kind text = if v.isFinite then some v else none := by
  cases h with
  | logical b =>
    refine ⟨_, rfl, ?_⟩
    cases b with
    | false => rfl
    | true => rfl
  | integer n =>
    obtain ⟨w, hread, -, hback⟩ := Value.read?_toText (.integer n)
    obtain rfl := hback nofun
    exact ⟨_, rfl, hread⟩
  | @whole n hn =>
    -- the numbers that YAML calls whole lie between the least signed and the greatest unsigned word
    have hbounds : Int64.minValue.toInt ≤ n ∧ n < UInt64.size := by simpa [isInteger] using hn
    have hmin : Int64.minValue.toInt = -9223372036854775808 := rfl
    have hsize : UInt64.size = 18446744073709551616 := rfl
    have hlt : n.natAbs < 2 ^ 64 := by omega
    refine ⟨_, rfl, ?_⟩
    show (Binary.read? (Decimal.intText n)).map Value.numeric = if (Binary.ofInt n : Binary64).isFinite then _ else _
    rw [Binary.read?_intText_of_lt hlt, if_pos (Binary.isFinite_ofInt_of_lt hlt)]
    rfl
  | floating x =>
    refine ⟨_, rfl, ?_⟩
    show (Binary.read? (x.text yamlNumber)).map Value.numeric = if x.isFinite then some (.numeric x) else none
    -- a special number is written in words that the cell does not read
    cases hfinite : x.isFinite with
    | true =>
      rw [Binary.read?_text_of_isFinite yamlNumber hfinite]
      rfl
    | false =>
      rw [Binary.read?_yamlText_of_not_isFinite hfinite]
      rfl
  | text s => exact ⟨s, rfl, rfl⟩
  | fileLink s => exact ⟨s, rfl, rfl⟩

/-! ## Calls behind bindings -/

section

variable {registry : Registry} {config : ResolverConfig} {t : Table} {σ : Type} {chooser : Chooser σ}

theorem Bindings.inputs_prefix_add (b : Bindings) (given : Option Choice) : b.inputs <+: (b.add given).inputs := by
  cases given with
  | none => exact List.prefix_refl _
  | some x =>
    cases x with
    | input param note binding => exact List.prefix_append _ _
    | output note plan => exact List.prefix_refl _

/-- What is bound stays bound, and every question has been answered with something that is bound. -/
theorem chooseEach_gives {asked : List (ParamSpec × List Candidate)} :
    ∀ {b b' : Bindings} {s s' : σ}, chooseEach chooser b s asked = (.ok b', s') →
      b.inputs <+: b'.inputs ∧ ∀ q ∈ asked, ∃ s₁ given, Call.Gives ⟨q.1, q.2, (chooser q.1 q.2 s₁).1⟩ given ∧
        ∀ param note binding, given = some (.input param note binding) → (param, binding) ∈ b'.inputs := by
  -- by induction on the questions: each adds what its call gives
  induction asked with
  | nil =>
    intro b b' s s' h
    obtain rfl := Except.ok.inj (Prod.mk.inj h).1
    exact ⟨List.prefix_refl _, nofun⟩
  | cons q rest ih =>
    intro b b' s s' h
    rcases hasked : chooser q.1 q.2 s with ⟨answer, next⟩
    rcases (Call.mk q.1 q.2 answer).gives_or_fails with ⟨given, hgives⟩ | ⟨e, hfails⟩
    · rw [hgives.chooseEach hasked] at h
      obtain ⟨hkept, hothers⟩ := ih h
      refine ⟨(b.inputs_prefix_add given).trans hkept, List.forall_mem_cons.2 ⟨⟨s, given, ?_, ?_⟩, hothers⟩⟩
      · rw [hasked]
        exact hgives
      · rintro param note binding rfl
        have hadded : (param, binding) ∈ (b.add (some (.input param note binding))).inputs :=
          List.mem_append_right _ List.mem_cons_self
        exact hkept.subset hadded
    · rw [hfails.chooseEach hasked] at h
      cases (Prod.mk.inj h).1

/-- **When resolving succeeds**, the call for each parameter with candidates has given something that is bound. -/
theorem resolve_gives {spec : RoutineSpec} {s s' : σ} {b : Bindings}
    (h : resolve registry config t spec chooser s = (.ok b, s')) {p : ParamSpec} (hp : p ∈ spec.params)
    (hfound : candidates registry config t p ≠ []) :
    ∃ s₁ given, Call.Gives
      ⟨p, candidates registry config t p, (chooser p (candidates registry config t p) s₁).1⟩ given ∧
      ∀ param note binding, given = some (.input param note binding) → (param, binding) ∈ b.inputs := by
  unfold resolve at h
  rw [enumerate_eq] at h
  -- a resolver that answers has found candidates for every parameter that needs some
  cases hnone : unanswerable? registry config t spec.params with
  | some q =>
    rw [hnone] at h
    cases (Prod.mk.inj h).1
  | none =>
    rw [hnone] at h
    -- a parameter with candidates is among those that the chooser was asked about
    have hasked : (p, candidates registry config t p) ∈ questions registry config t spec.params := by
      refine List.mem_map_of_mem (List.mem_filter.2 ⟨hp, ?_⟩)
      simpa using hfound
    exact (chooseEach_gives h).2 _ hasked

end

/-! ## Presets -/

section

variable {registry : Registry} {config : ResolverConfig} {t : Table} {σ : Type}

/-- The parameter is bound to a constant whenever its question is answered by the selection, in the loop and in whole
routines, and a failure is one of another parameter. -/
structure Selection.BindsConstant (registry : Registry) (config : ResolverConfig) (t : Table) (chooser : Chooser σ)
    (p : ParamSpec) (i : Nat) (text : String) (cell : Cell) (r : Reader) : Prop where
  takes : ∀ b : Bindings, b.take p (candidates registry config t p) (some (.constant i text)) =
    .ok (b.addInput p.name s!"constant {text}" (.constant cell r))
  resolves : ∀ spec s b s', p ∈ spec.params → resolve registry config t spec chooser s = (.ok b, s') →
    (p.name, .constant cell r) ∈ b.inputs
  others : ∀ spec s e, (resolve registry config t spec chooser s).1 = .error e → (∃ q, e = .noCandidates q t.name) ∨
    ∃ q ∈ spec.params, q ≠ p ∧ ∃ s₁, Call.Fails
      ⟨q, candidates registry config t q, (chooser q (candidates registry config t q) s₁).1⟩ e

/-- The selection is refused for its text, in the loop and in whole routines. -/
structure Selection.RefusesConstant (registry : Registry) (config : ResolverConfig) (t : Table) (chooser : Chooser σ)
    (p : ParamSpec) (i : Nat) (text : String) (r : Reader) : Prop where
  takes : ∀ b : Bindings, b.take p (candidates registry config t p) (some (.constant i text)) =
    .error (.invalidSelection p.name (.unreadable (.unreadable r.info.kind text)))
  resolves : ∀ spec s b, p ∈ spec.params → (resolve registry config t spec chooser s).1 ≠ .ok b

/-- **A constant preset binds its parameter to the value that its scalar denotes**, whatever reader the constant goes
through, unless the value is an infinity or no number: then the selection is refused. -/
theorem constant_of_preset {p : ParamSpec} {presets : Dict Preset} {y : Yaml} {reader : Option String} {i : Nat}
    {r : Reader} {v : Value} (hget : presets.get? p.name = some (.constant y reader))
    (hfirst : Candidate.IsFirst (Preset.constant y reader).Asks (candidates registry config t p) i (.constant r))
    (hdenotes : y.Denotes v) (hkind : v.kind = r.info.kind) :
    ∃ text, y.scalarText? = some text ∧
      (∀ s : σ, presetChooser presets p (candidates registry config t p) s = (.ok (some (.constant i text)), s)) ∧
      (v.isFinite = true → Selection.BindsConstant registry config t (presetChooser (σ := σ) presets) p i text
        ⟨v, r.info.constantSubtype⟩ r) ∧
      (v.isFinite = false → Selection.RefusesConstant registry config t (presetChooser (σ := σ) presets) p i text r) := by
  obtain ⟨text, htext, hread⟩ := Yaml.read?_scalarText hdenotes
  rw [hkind] at hread
  have hanswer : ∀ s : σ, presetChooser presets p (candidates registry config t p) s =
      (.ok (some (.constant i text)), s) := by
    intro s
    have hfind := (findIdx?_eq_some fun _ => Preset.property_iff).2 ⟨_, hfirst⟩
    unfold presetChooser
    rw [hget]
    simp only
    rw [Preset.select_of_isSearch rfl, hfind]
    simp only [Preset.selection?, htext, Option.map_some]
  have hne : candidates registry config t p ≠ [] := List.ne_nil_of_mem (List.mem_of_getElem? hfirst.here)
  refine ⟨text, htext, hanswer, fun hfinite => ?_, fun hfinite => ?_⟩
  · rw [if_pos hfinite] at hread
    have hpicks := Selection.Picks.constant (p := p) hfirst.here hread
    refine ⟨fun b => hpicks.take b, fun spec s b s' hp h => ?_, fun spec s e h => ?_⟩
    · obtain ⟨s₁, given, hgives, hbound⟩ := resolve_gives h hp hne
      rw [hanswer s₁] at hgives
      cases hgives with
      | choice hpicked =>
        cases hpicked with
        | constant hc hread' =>
          obtain rfl := Candidate.constant.inj (Option.some.inj (hfirst.here.symm.trans hc))
          obtain rfl := Option.some.inj (hread.symm.trans hread')
          exact hbound _ _ _ rfl
    · rcases resolve_fails h with ⟨q, rfl⟩ | ⟨q, hq, s₁, hfails⟩
      · exact .inl ⟨_, rfl⟩
      · refine .inr ⟨q, hq, ?_, s₁, hfails⟩
        rintro rfl
        -- the call for the parameter itself does not fail
        rw [hanswer s₁] at hfails
        cases hfails with
        | selecting hfaulty =>
          obtain ⟨_, _, _, hsel, hhere, hnone, -⟩ := (Selection.Designates.constant hfirst).fault_eq hfaulty
          obtain ⟨rfl, rfl⟩ := Selection.constant.inj hsel
          obtain rfl := Candidate.constant.inj (Option.some.inj (hfirst.here.symm.trans hhere))
          rw [hread] at hnone
          cases hnone
  · rw [hfinite, if_neg Bool.false_ne_true] at hread
    have hfaulty := Selection.Faulty.unreadable hfirst.here hread
    refine ⟨fun b => hfaulty.take p b, fun spec s b hp h => ?_⟩
    obtain ⟨s₁, given, hgives, -⟩ := resolve_gives (Prod.ext h rfl) hp hne
    rw [hanswer s₁] at hgives
    cases hgives with
    | choice hpicked =>
      cases hpicked with
      | constant hc hread' =>
        obtain rfl := Candidate.constant.inj (Option.some.inj (hfirst.here.symm.trans hc))
        rw [hread] at hread'
        cases hread'

end

namespace Level

def source : Table := Table.empty "scan"

def spec : RoutineSpec :=
  ⟨"mask", [⟨"level", none, .input, .f64, some .numeric, .any, true⟩]⟩

/-- The level is answered by a constant. -/
def presets (y : Yaml) : Dict Preset :=
  .ofList [("level", .constant y none)]

/-- Two and a half. -/
def middle : Binary64 := .ofRatio false 5 2

end Level

open Level in
/-- A level of two and a half is bound. -/
theorem level_bound : ∃ r b, (resolve .builtin .standard source spec (presetChooser (presets (.floating middle))) ()).1 =
      .ok b ∧ (Yaml.floating middle).Denotes (.numeric middle) ∧
    ("level", InputBinding.constant ⟨.numeric middle, r.info.constantSubtype⟩ r) ∈ b.inputs := by
  have hfirst : ∃ r, Candidate.IsFirst (Preset.constant (.floating middle) none).Asks
      (candidates .builtin .standard source spec.params[0]) 0 (.constant r) ∧ Kind.numeric = r.info.kind :=
    ⟨_, ⟨rfl, .constant nofun, fun j hj => absurd hj (Nat.not_lt_zero j)⟩, rfl⟩
  obtain ⟨r, hfirst, hkind⟩ := hfirst
  have hok : (resolve .builtin .standard source spec (presetChooser (presets (.floating middle))) ()).1.isOk = true := by
    decide +kernel
  rcases hresolve : resolve .builtin .standard source spec (presetChooser (presets (.floating middle))) () with ⟨e | b, s⟩
  · rw [hresolve] at hok
    cases hok
  · have hget : (presets (.floating middle)).get? "level" = some (.constant (.floating middle) none) := rfl
    have hfinite : (Value.numeric middle).isFinite = true := by decide +kernel
    obtain ⟨text, -, -, hbinds, -⟩ := @constant_of_preset _ _ _ Unit _ _ _ _ _ _ _ hget hfirst (.floating middle) hkind
    exact ⟨r, b, rfl, .floating middle, (hbinds hfinite).resolves spec () b s List.mem_cons_self hresolve⟩

open Level in
/-- **A level without end is refused**, though there is a value for it. -/
theorem infinite_level_refused : (Yaml.floating (.infinite false)).Denotes (.numeric (.infinite false)) ∧
    (resolve .builtin .standard source spec (presetChooser (presets (.floating (.infinite false)))) ()).1.map
        (fun _ => ()) =
      .error (.invalidSelection "level" (.unreadable (.unreadable .numeric ".inf"))) := by
  refine ⟨.floating _, ?_⟩
  decide +kernel

end TableForest
