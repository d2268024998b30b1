import TableForest.Adapter.Builtin
import TableForest.Binding.Preset
import TableForest.Proofs.Binding.Dialogue

/-!
# Choosers that search

A chooser and the resolver look at the same candidates, and each tells columns, constants and new columns apart on its
own.  A chooser that takes the first candidate of a sort never answers with anything that the resolver would refuse
for its number or its sort.

## The architecture

* **`Candidate.IsFirst`** says which candidate a search finds, and **`findIdx?_eq_some`** that it does.
* **`Preset.Asks`** spells out what a preset looks for; **`Preset.select_of_isSearch`** is the one lemma for the three
  presets that search, and **`Preset.select_eq_ok`** and **`Preset.select_eq_error`** draw from it when they answer and
  when they fail.
* **`Yaml.scalarText?_eq_none`** names the values that a constant cannot have.
* **`Selection.Designates`** is what the resolver relies on: **`Selection.Designates.handled`** says what it makes of
  it.
* **`choosers_agree_with_resolve`** puts choosers and resolver together, for a parameter and for a whole routine.
-/

namespace TableForest

/-! ## The first candidate -/

/-- The candidate stands at an index, and it is the first of those that are asked for. -/
structure Candidate.IsFirst (asked : Candidate → Prop) (found : List Candidate) (i : Nat) (c : Candidate) : Prop where
  here : found[i]? = some c
  fits : asked c
  before : ∀ j < i, ∀ d, found[j]? = some d → ¬asked d

theorem Candidate.IsFirst.lt_length {asked : Candidate → Prop} {found : List Candidate} {i : Nat} {c : Candidate}
    (h : IsFirst asked found i c) : i < found.length :=
  (List.getElem?_eq_some_iff.1 h.here).1

section

variable {asked : Candidate → Prop} {property : Candidate → Bool} (hproperty : ∀ c, property c = true ↔ asked c)
  {found : List Candidate}

include hproperty

/-- A search finds the first candidate that is asked for. -/
theorem findIdx?_eq_some {i : Nat} : found.findIdx? property = some i ↔ ∃ c, Candidate.IsFirst asked found i c := by
  rw [List.findIdx?_eq_some_iff_getElem]
  constructor
  · rintro ⟨hlt, hfirst, hbefore⟩
    refine ⟨found[i], List.getElem?_eq_getElem hlt, (hproperty _).1 hfirst, fun j hj d hd hasked => ?_⟩
    obtain ⟨hlen, rfl⟩ := List.getElem?_eq_some_iff.1 hd
    exact hbefore j hj ((hproperty _).2 hasked)
  · rintro ⟨c, hhere, hasked, hbefore⟩
    obtain ⟨hlt, rfl⟩ := List.getElem?_eq_some_iff.1 hhere
    refine ⟨hlt, (hproperty _).2 hasked, fun j hj htrue => ?_⟩
    exact hbefore j hj _ (List.getElem?_eq_getElem (Nat.lt_trans hj hlt)) ((hproperty _).1 htrue)

/-- A search finds nothing if no candidate is asked for. -/
theorem findIdx?_eq_none : found.findIdx? property = none ↔ ∀ c ∈ found, ¬asked c := by
  rw [List.findIdx?_eq_none_iff]
  refine forall₂_congr fun c _ => ?_
  rw [← hproperty, Bool.not_eq_true]

end

/-! ## What presets ask for -/

/-- **The values that are no scalars** are null and the collections; a text is a scalar even if it is empty. -/
theorem Yaml.scalarText?_eq_none {y : Yaml} :
    y.scalarText? = none ↔ y = .null ∨ (∃ items, y = .sequence items) ∨ ∃ entries, y = .mapping entries := by
  cases y with
  | null => exact ⟨fun _ => .inl rfl, fun _ => rfl⟩
  | sequence items => exact ⟨fun _ => .inr (.inl ⟨items, rfl⟩), fun _ => rfl⟩
  | mapping entries => exact ⟨fun _ => .inr (.inr ⟨entries, rfl⟩), fun _ => rfl⟩
  | bool b => simp [scalarText?]
  | integer n => simp [scalarText?]
  | floating x => simp [scalarText?]
  | string s => simp [scalarText?]

namespace Preset

/-- The candidates that a preset asks for: columns of a name or constants, through the reader that is named if one is,
or new columns through the writer that is named. -/
inductive Asks : Preset → Candidate → Prop where
  | column {name : String} {reader : Option String} {index : Nat} {r : Reader}
      (hreader : ∀ named, reader = some named → r.info.name = named) :
      Asks (.column name reader) (.column index name r)
  | constant {value : Yaml} {reader : Option String} {r : Reader}
      (hreader : ∀ named, reader = some named → r.info.name = named) :
      Asks (.constant value reader) (.constant r)
  | writer {w : Writer} {link : Option LinkTemplate} : Asks (.writer w.info.name) (.newColumn w link)

/-- The preset looks for a candidate. -/
def isSearch : Preset → Bool
  | column _ _ => true
  | constant _ _ => true
  | writer _ => true
  | index _ => false
  | cancel _ => false

/-- What a preset looks for, as its failure says. -/
def wanted : Preset → String
  | column name _ => s!"column `{name}`"
  | constant _ _ => "a constant"
  | writer name => s!"writer `{name}`"
  | index _ => ""
  | cancel _ => ""

/-- The selection of the candidate that was found; a constant needs a scalar. -/
def selection? : Preset → Nat → Option Selection
  | constant value _, i => value.scalarText?.map (.constant i ·)
  | _, i => some (.candidate i)

theorem goesThrough_iff {reader : Option String} {c : Candidate} :
    goesThrough reader c = true ↔ ∀ named, reader = some named → c.adapterName = named := by
  cases reader with
  | none => simp [goesThrough]
  | some name => simp [goesThrough, eq_comm]

/-- What a preset tries on each candidate. -/
def property : Preset → Candidate → Bool
  | column name reader, c => c.isColumnNamed name && goesThrough reader c
  | constant _ reader, c => c.isConstant && goesThrough reader c
  | writer name, c => c.isNewColumn && c.adapterName = name
  | index _, _ => false
  | cancel _, _ => false

theorem property_iff {preset : Preset} {c : Candidate} : preset.property c = true ↔ preset.Asks c := by
  constructor
  -- a name that is tried on a candidate is that of its column, its reader or its writer
  · intro h
    cases preset with
    | column name reader =>
      obtain ⟨hcolumn, hreader⟩ := (Bool.and_eq_true _ _).mp h
      cases c with
      | column index found r =>
        obtain rfl : found = name := of_decide_eq_true hcolumn
        exact .column (goesThrough_iff.1 hreader)
      | constant r => cases hcolumn
      | newColumn w link => cases hcolumn
    | constant value reader =>
      obtain ⟨hconstant, hreader⟩ := (Bool.and_eq_true _ _).mp h
      cases c with
      | column index found r => cases hconstant
      | constant r => exact .constant (goesThrough_iff.1 hreader)
      | newColumn w link => cases hconstant
    | writer name =>
      obtain ⟨hnew, hname⟩ := (Bool.and_eq_true _ _).mp h
      cases c with
      | column index found r => cases hnew
      | constant r => cases hnew
      | newColumn w link =>
        obtain rfl : w.info.name = name := of_decide_eq_true hname
        exact .writer
    | index i => cases h
    | cancel really => cases h
  · intro h
    cases h with
    | column hreader => exact (Bool.and_eq_true _ _).mpr ⟨decide_eq_true rfl, goesThrough_iff.2 hreader⟩
    | constant hreader => exact (Bool.and_eq_true _ _).mpr ⟨rfl, goesThrough_iff.2 hreader⟩
    | writer => exact (Bool.and_eq_true _ _).mpr ⟨rfl, decide_eq_true rfl⟩

/-- **A preset that searches** takes the first candidate that it asks for.  It fails if there is none, and then if its
value is no scalar. -/
theorem select_of_isSearch {preset : Preset} (h : preset.isSearch = true) (param : String)
    (found : List Candidate) :
    preset.select param found =
      match found.findIdx? preset.property with
      | none => .error (.invalidSelection param (.noMatch preset.wanted))
      | some i =>
        match preset.selection? i with
        | some sel => .ok (some sel)
        | none => .error (.invalidSelection param .notScalar) := by
  -- the three searches differ in what they look for, and one of them has a value to check
  cases preset with
  | column name reader =>
    show (findCandidate param found _ (column name reader).property >>= _) = _
    unfold findCandidate
    cases found.findIdx? (column name reader).property <;> rfl
  | constant value reader =>
    show (findCandidate param found _ (constant value reader).property >>= _) = _
    unfold findCandidate
    cases found.findIdx? (constant value reader).property with
    | none => rfl
    | some i =>
      simp only [selection?]
      cases value.scalarText? <;> rfl
  | writer name =>
    show (findCandidate param found _ (writer name).property >>= _) = _
    unfold findCandidate
    cases found.findIdx? (writer name).property <;> rfl
  | index i => cases h
  | cancel really => cases h

theorem selection?_eq_none {preset : Preset} {i : Nat} :
    preset.selection? i = none ↔ ∃ value reader, preset = .constant value reader ∧ value.scalarText? = none := by
  cases preset with
  | constant value reader => simp [selection?]
  | _ => simp [selection?]

end Preset

/-! ## Selections that were found -/

/-- The selection designates the first candidate that is asked for, and it has a text exactly if that is a
constant. -/
inductive Selection.Designates (asked : Candidate → Prop) (found : List Candidate) : Selection → Candidate → Prop where
  | candidate {i : Nat} {c : Candidate} (hfirst : Candidate.IsFirst asked found i c) (hclass : c.isConstant = false) :
      Designates asked found (.candidate i) c
  | constant {i : Nat} {r : Reader} {text : String} (hfirst : Candidate.IsFirst asked found i (.constant r)) :
      Designates asked found (.constant i text) (.constant r)

/-- The resolver binds a selection, or it is a constant and its text spells no value of the reader's kind. -/
inductive Selection.Handled (p : ParamSpec) (found : List Candidate) (b : Bindings) : Selection → Prop where
  | bound {sel : Selection} {x : Choice} (hpicks : sel.Picks p found x)
      (htake : b.take p found (some sel) = .ok (b.add (some x))) : Handled p found b sel
  | unreadable {i : Nat} {text : String} {r : Reader} (hhere : found[i]? = some (.constant r))
      (hread : Value.read? r.info.kind text = none)
      (htake : b.take p found (some (.constant i text)) =
        .error (.invalidSelection p.name (.unreadable (.unreadable r.info.kind text)))) :
      Handled p found b (.constant i text)

namespace Selection.Designates

variable {asked : Candidate → Prop} {found : List Candidate} {sel : Selection} {c : Candidate}

theorem isFirst (h : sel.Designates asked found c) : Candidate.IsFirst asked found sel.index c := by
  cases h with
  | candidate hfirst hclass => exact hfirst
  | constant hfirst => exact hfirst

/-- **Nothing can be wrong with a selection that was found** but the text of a constant. -/
theorem fault_eq (h : sel.Designates asked found c) {fault : SelectionFault} (hfaulty : sel.Faulty found fault) :
    ∃ i text r, sel = .constant i text ∧ found[i]? = some (.constant r) ∧ Value.read? r.info.kind text = none ∧
      fault = .unreadable (.unreadable r.info.kind text) := by
  have hhere := h.isFirst.here
  cases hfaulty with
  | outOfRange hlen => exact absurd h.isFirst.lt_length (Nat.not_lt.2 hlen)
  | needsValue hc =>
    obtain rfl := Option.some.inj (hhere.symm.trans hc)
    cases h with
    | candidate hfirst hclass => cases hclass
  | notConstant hc hkind =>
    obtain rfl := Option.some.inj (hhere.symm.trans hc)
    cases h with
    | constant hfirst => cases hkind
  | unreadable hc hread => exact ⟨_, _, _, rfl, hc, hread, rfl⟩

theorem handled (h : sel.Designates asked found c) (p : ParamSpec) (b : Bindings) : sel.Handled p found b := by
  rcases sel.picks_or_faulty p found with ⟨x, hpicks⟩ | ⟨fault, hfaulty⟩
  · exact .bound hpicks (hpicks.take b)
  · obtain ⟨i, text, r, rfl, hhere, hread, rfl⟩ := h.fault_eq hfaulty
    exact .unreadable hhere hread (hfaulty.take p b)

end Selection.Designates

/-! ## Answers -/

/-- **The chooser of first candidates** designates the first that is no constant, or leaves the parameter. -/
theorem firstCandidate_answers {σ : Type} (p : ParamSpec) (found : List Candidate) (s : σ) :
    ∃ answer, firstCandidate p found s = (.ok answer, s) ∧
      (∀ sel, answer = some sel ↔ ∃ c, sel.Designates (·.isConstant = false) found c) ∧
      (answer = none ↔ ∀ c ∈ found, c.isConstant = true) := by
  -- nothing is said about texts here: what is found is no constant
  have hproperty : ∀ c : Candidate, (!c.isConstant) = true ↔ c.isConstant = false := by simp
  refine ⟨_, rfl, fun sel => ?_, ?_⟩
  · rw [Option.map_eq_some_iff]
    constructor
    · rintro ⟨i, hi, rfl⟩
      obtain ⟨c, hfirst⟩ := (findIdx?_eq_some hproperty).1 hi
      exact ⟨c, .candidate hfirst hfirst.fits⟩
    · rintro ⟨c, h⟩
      refine ⟨sel.index, (findIdx?_eq_some hproperty).2 ⟨c, h.isFirst⟩, ?_⟩
      cases h with
      | candidate hfirst hclass => rfl
      | constant hfirst => cases hfirst.fits
  · rw [Option.map_eq_none_iff, findIdx?_eq_none hproperty]
    refine forall₂_congr fun c _ => ?_
    rw [Bool.not_eq_false]

namespace Preset

variable {preset : Preset} (hsearch : preset.isSearch = true) (param : String) (found : List Candidate)

/-- The sort of a selection is that of the candidate that a preset asks for. -/
theorem designates_of_selection? {i : Nat} {c : Candidate} {sel : Selection}
    (hfirst : Candidate.IsFirst preset.Asks found i c) (hsel : preset.selection? i = some sel) :
    sel.Designates preset.Asks found c ∧ sel.index = i := by
  have hasks := hfirst.fits
  cases hasks with
  | column hreader =>
    obtain rfl := Option.some.inj hsel
    exact ⟨.candidate hfirst rfl, rfl⟩
  | constant hreader =>
    obtain ⟨text, -, rfl⟩ := Option.map_eq_some_iff.1 hsel
    exact ⟨.constant hfirst, rfl⟩
  | writer =>
    obtain rfl := Option.some.inj hsel
    exact ⟨.candidate hfirst rfl, rfl⟩

include hsearch

theorem select_eq_ok (sel : Selection) :
    preset.select param found = .ok (some sel) ↔
      ∃ c, sel.Designates preset.Asks found c ∧ preset.selection? sel.index = some sel := by
  rw [select_of_isSearch hsearch]
  constructor
  -- the search has found a candidate, and its selection is the one that is answered
  · intro h
    split at h
    · cases h
    · rename_i i hi
      split at h
      · rename_i sel' hsel
        obtain rfl := Option.some.inj (Except.ok.inj h)
        obtain ⟨c, hfirst⟩ := (findIdx?_eq_some fun _ => property_iff).1 hi
        obtain ⟨hdesignates, rfl⟩ := designates_of_selection? found hfirst hsel
        exact ⟨c, hdesignates, hsel⟩
      · cases h
  · rintro ⟨c, hdesignates, hsel⟩
    rw [(findIdx?_eq_some fun _ => property_iff).2 ⟨c, hdesignates.isFirst⟩]
    simp only [hsel]

theorem select_eq_error (e : BindingError) :
    preset.select param found = .error e ↔
      (∀ c ∈ found, ¬preset.Asks c) ∧ e = .invalidSelection param (.noMatch preset.wanted) ∨
        (∃ c ∈ found, preset.Asks c) ∧ e = .invalidSelection param .notScalar ∧
          ∃ value reader, preset = .constant value reader ∧ value.scalarText? = none := by
  rw [select_of_isSearch hsearch]
  -- either nothing is found, or what is found needs a value that is no scalar
  cases hfind : found.findIdx? preset.property with
  | none =>
    have hnone := (findIdx?_eq_none fun _ => property_iff).1 hfind
    constructor
    · intro h
      exact .inl ⟨hnone, (Except.error.inj h).symm⟩
    · rintro (⟨-, rfl⟩ | ⟨⟨c, hc, hasks⟩, -⟩)
      · rfl
      · exact absurd hasks (hnone c hc)
  | some i =>
    obtain ⟨c, hfirst⟩ := (findIdx?_eq_some fun _ => property_iff).1 hfind
    have hmem := List.mem_of_getElem? hfirst.here
    simp only
    cases hsel : preset.selection? i with
    | none =>
      constructor
      · intro h
        exact .inr ⟨⟨c, hmem, hfirst.fits⟩, (Except.error.inj h).symm, selection?_eq_none.1 hsel⟩
      · rintro (⟨hnone, -⟩ | ⟨-, rfl, -⟩)
        · exact absurd hfirst.fits (hnone c hmem)
        · rfl
    | some sel =>
      -- a search with a selection does not fail
      constructor
      · intro h
        cases h
      · rintro (⟨hnone, -⟩ | ⟨-, -, hscalar⟩)
        · exact absurd hfirst.fits (hnone c hmem)
        · rw [selection?_eq_none.2 hscalar] at hsel
          cases hsel

omit hsearch in
/-- A constant that is asked for is refused exactly if its value is null or a collection. -/
theorem select_constant_eq_notScalar {value : Yaml} {reader : Option String}
    (hasked : ∃ c ∈ found, (constant value reader).Asks c) :
    (constant value reader).select param found = .error (.invalidSelection param .notScalar) ↔
      value = .null ∨ (∃ items, value = .sequence items) ∨ ∃ entries, value = .mapping entries := by
  rw [select_eq_error rfl, ← Yaml.scalarText?_eq_none]
  constructor
  · rintro (⟨hnone, -⟩ | ⟨-, -, value', reader', hsame, hvalue⟩)
    · obtain ⟨c, hc, hasks⟩ := hasked
      exact absurd hasks (hnone c hc)
    · obtain ⟨rfl, -⟩ := Preset.constant.inj hsame
      exact hvalue
  · exact fun hvalue => .inr ⟨hasked, rfl, value, reader, rfl, hvalue⟩

theorem select_ne_none : preset.select param found ≠ .ok none := by
  rw [select_of_isSearch hsearch]
  intro h
  split at h
  · cases h
  · split at h
    · cases h
    · cases h

end Preset

/-- How presets answer for a parameter with candidates. -/
structure Preset.Answers (presets : Dict Preset) (p : ParamSpec) (found : List Candidate)
    (answer : Except BindingError (Option Selection)) : Prop where
  /-- What is selected is the first candidate that was asked for, with the value if it is a constant. -/
  selects : ∀ preset, presets.get? p.name = some preset → preset.isSearch = true → ∀ sel,
    answer = .ok (some sel) ↔ ∃ c, sel.Designates preset.Asks found c ∧ preset.selection? sel.index = some sel
  /-- A search fails if no candidate is asked for or a value is no scalar. -/
  invalid : (∃ param fault, answer = .error (.invalidSelection param fault)) ↔
    ∃ preset, presets.get? p.name = some preset ∧ preset.isSearch = true ∧
      ((∀ c ∈ found, ¬preset.Asks c) ∨
        ∃ value reader, preset = .constant value reader ∧ value.scalarText? = none)
  nothing : answer = .ok none ↔ presets.get? p.name = none ∨ presets.get? p.name = some (.cancel false)
  cancelled : answer = .error .cancelled ↔ presets.get? p.name = some (.cancel true)
  /-- There is no other failure, and a failure names the parameter. -/
  failure : ∀ e, answer = .error e → e = .cancelled ∨
    e = .invalidSelection p.name .notScalar ∨ ∃ wanted, e = .invalidSelection p.name (.noMatch wanted)

/-- A preset that searches answers as presets do. -/
theorem Preset.answers_of_isSearch {presets : Dict Preset} {p : ParamSpec} {preset : Preset}
    (hget : presets.get? p.name = some preset) (hsearch : preset.isSearch = true) (found : List Candidate) :
    Answers presets p found (preset.select p.name found) where
  selects := by
    intro preset' hget' _
    obtain rfl := Option.some.inj (hget.symm.trans hget')
    exact select_eq_ok hsearch p.name found
  invalid := by
    constructor
    · rintro ⟨param, fault, h⟩
      refine ⟨preset, hget, hsearch, ?_⟩
      rcases (select_eq_error hsearch p.name found _).1 h with ⟨hnone, -⟩ | ⟨-, -, hscalar⟩
      · exact .inl hnone
      · exact .inr hscalar
    · rintro ⟨preset', hget', -, h⟩
      obtain rfl := Option.some.inj (hget.symm.trans hget')
      -- a candidate that is asked for is found first, so only the value is left to be wrong
      by_cases hnone : ∀ c ∈ found, ¬preset.Asks c
      · exact ⟨_, _, (select_eq_error hsearch p.name found _).2 (.inl ⟨hnone, rfl⟩)⟩
      · have hsome : ∃ c ∈ found, preset.Asks c := by simpa using hnone
        have hscalar := h.resolve_left hnone
        exact ⟨_, _, (select_eq_error hsearch p.name found _).2 (.inr ⟨hsome, rfl, hscalar⟩)⟩
  nothing := by
    refine ⟨fun h => absurd h (select_ne_none hsearch p.name found), ?_⟩
    rw [hget]
    rintro (h | h)
    · cases h
    · obtain rfl := Option.some.inj h
      cases hsearch
  cancelled := by
    constructor
    · intro h
      rcases (select_eq_error hsearch p.name found _).1 h with ⟨-, he⟩ | ⟨-, he, -⟩
      · cases he
      · cases he
    · intro h
      obtain rfl := Option.some.inj (hget.symm.trans h)
      cases hsearch
  failure := by
    intro e h
    rcases (select_eq_error hsearch p.name found _).1 h with ⟨-, rfl⟩ | ⟨-, rfl, -⟩
    · exact .inr (.inr ⟨_, rfl⟩)
    · exact .inr (.inl rfl)

/-- Without a search there is nothing to find. -/
theorem Preset.answers_of_not_isSearch {presets : Dict Preset} {p : ParamSpec} {found : List Candidate}
    {answer : Except BindingError (Option Selection)}
    (hnot : ∀ preset, presets.get? p.name = some preset → preset.isSearch = false)
    (hvalid : ∀ e, answer = .error e → e = .cancelled)
    (hnothing : answer = .ok none ↔ presets.get? p.name = none ∨ presets.get? p.name = some (.cancel false))
    (hcancelled : answer = .error .cancelled ↔ presets.get? p.name = some (.cancel true)) :
    Answers presets p found answer where
  selects := by
    intro preset hget hsearch
    rw [hnot preset hget] at hsearch
    cases hsearch
  invalid := by
    constructor
    · rintro ⟨param, fault, h⟩
      cases hvalid _ h
    · rintro ⟨preset, hget, hsearch, -⟩
      rw [hnot preset hget] at hsearch
      cases hsearch
  nothing := hnothing
  cancelled := hcancelled
  failure := fun e h => .inl (hvalid e h)

/-- **Presets answer** with the first candidate that was asked for, and otherwise as they say. -/
theorem presetChooser_answers {σ : Type} (presets : Dict Preset) (p : ParamSpec) (found : List Candidate) (s : σ) :
    ∃ answer, presetChooser presets p found s = (answer, s) ∧ Preset.Answers presets p found answer := by
  unfold presetChooser
  cases hget : presets.get? p.name with
  | none => exact ⟨_, rfl, Preset.answers_of_not_isSearch (by simp [hget]) nofun (by simp [hget]) (by simp [hget])⟩
  | some preset =>
    refine ⟨_, rfl, ?_⟩
    -- the presets without a search say what they answer
    have hnot : preset.isSearch = false → ∀ other, presets.get? p.name = some other → other.isSearch = false := by
      intro h other hother
      obtain rfl := Option.some.inj (hget.symm.trans hother)
      exact h
    cases preset with
    | column name reader => exact Preset.answers_of_isSearch hget rfl found
    | constant value reader => exact Preset.answers_of_isSearch hget rfl found
    | writer name => exact Preset.answers_of_isSearch hget rfl found
    | index i =>
      have hselect : (Preset.index i).select p.name found = .ok (some (.candidate i)) := rfl
      rw [hselect]
      exact Preset.answers_of_not_isSearch (hnot rfl) nofun (by simp [hget]) (by simp [hget])
    | cancel really =>
      cases really with
      | true =>
        have hselect : (Preset.cancel true).select p.name found = .error .cancelled := rfl
        rw [hselect]
        exact Preset.answers_of_not_isSearch (hnot rfl) (fun _ h => (Except.error.inj h).symm) (by simp [hget])
          (by simp [hget])
      | false =>
        have hselect : (Preset.cancel false).select p.name found = .ok none := rfl
        rw [hselect]
        exact Preset.answers_of_not_isSearch (hnot rfl) nofun (by simp [hget]) (by simp [hget])

/-! ## Failures of resolving -/

section

variable {registry : Registry} {config : ResolverConfig} {t : Table} {σ : Type}

/-- Resolving with first candidates finds nothing wrong with a selection. -/
theorem resolve_firstCandidate_ne (spec : RoutineSpec) (s : σ) (name : String) (fault : SelectionFault) :
    (resolve registry config t spec firstCandidate s).1 ≠ .error (.invalidSelection name fault) := by
  intro h
  rcases resolve_fails h with ⟨p, he⟩ | ⟨p, -, s₁, hfails⟩
  · cases he
  · obtain ⟨answer, hanswer, hselects, -⟩ := firstCandidate_answers p (candidates registry config t p) s₁
    rw [hanswer] at hfails
    cases hfails with
    | selecting hfaulty =>
      obtain ⟨c, hdesignates⟩ := (hselects _).1 rfl
      obtain ⟨i, text, r, rfl, -⟩ := hdesignates.fault_eq hfaulty
      -- what has a text is a constant, and none was asked for
      cases hdesignates with
      | constant hfirst => cases hfirst.fits

/-- Resolving with a preset that searches finds nothing wrong with its selection but the text of a constant. -/
theorem resolve_presetChooser_fails {spec : RoutineSpec} {presets : Dict Preset} {s : σ} {name : String}
    {fault : SelectionFault}
    (h : (resolve registry config t spec (presetChooser presets) s).1 = .error (.invalidSelection name fault))
    {preset : Preset} (hget : presets.get? name = some preset) (hsearch : preset.isSearch = true) :
    ∃ p ∈ spec.params, p.name = name ∧
      let found := candidates registry config t p
      preset.select name found = .error (.invalidSelection name fault) ∨
        ∃ i r text, Candidate.IsFirst preset.Asks found i (.constant r) ∧
          preset.selection? i = some (.constant i text) ∧ Value.read? r.info.kind text = none ∧
          fault = .unreadable (.unreadable r.info.kind text) := by
  rcases resolve_fails h with ⟨p, he⟩ | ⟨p, hp, s₁, hfails⟩
  · cases he
  · obtain ⟨answer, hanswer, hanswers⟩ := presetChooser_answers presets p (candidates registry config t p) s₁
    have hselect : ∀ preset, presets.get? p.name = some preset →
        answer = preset.select p.name (candidates registry config t p) := by
      intro preset hget
      unfold presetChooser at hanswer
      rw [hget] at hanswer
      exact (Prod.mk.inj hanswer).1.symm
    rw [hanswer] at hfails
    cases hfails with
    | asking =>
      -- the chooser has failed itself, and that names the parameter
      obtain rfl : p.name = name := by
        rcases hanswers.failure _ rfl with he | he | ⟨wanted, he⟩
        · cases he
        · exact (BindingError.invalidSelection.inj he).1.symm
        · exact (BindingError.invalidSelection.inj he).1.symm
      exact ⟨p, hp, rfl, .inl (hselect preset hget).symm⟩
    | selecting hfaulty =>
      obtain ⟨c, hdesignates, hselection⟩ := (hanswers.selects preset hget hsearch _).1 rfl
      obtain ⟨i, text, r, rfl, hhere, hread, rfl⟩ := hdesignates.fault_eq hfaulty
      obtain rfl := Option.some.inj (hhere.symm.trans hdesignates.isFirst.here)
      exact ⟨p, hp, rfl, .inr ⟨i, r, text, hdesignates.isFirst, hselection, hread, rfl⟩⟩

end

/-- **Choosers that search agree with the resolver**, whatever stands among the candidates: columns of one name, several
readers, constants.  First candidates and presets of columns, constants and writers select the first candidate that
was asked for, so its number is in range and it is of the sort of the selection; the resolver binds it, or it is a
constant and its text spells no value of the reader's kind.  A search fails exactly if nothing was asked for or the
value is no scalar, and presets give no answer exactly if there is none for the parameter or it says so.  So when a
whole routine is resolved nothing else is ever wrong with such a selection. -/
theorem choosers_agree_with_resolve {σ : Type} (registry : Registry) (config : ResolverConfig) (t : Table) :
    (∀ (p : ParamSpec) (s : σ),
      let found := candidates registry config t p
      (∃ answer, firstCandidate p found s = (.ok answer, s) ∧
        (∀ sel, answer = some sel ↔ ∃ c, sel.Designates (·.isConstant = false) found c) ∧
        (answer = none ↔ ∀ c ∈ found, c.isConstant = true)) ∧
      (∀ presets, ∃ answer, presetChooser presets p found s = (answer, s) ∧
        Preset.Answers presets p found answer) ∧
      ∀ asked sel c, sel.Designates asked found c →
        sel.index < found.length ∧ found[sel.index]? = some c ∧ ∀ b, Selection.Handled p found b sel) ∧
    (∀ (spec : RoutineSpec) (s : σ) name fault,
      (resolve registry config t spec firstCandidate s).1 ≠ .error (.invalidSelection name fault)) ∧
    ∀ (spec : RoutineSpec) (presets : Dict Preset) (s : σ) name fault preset,
      (resolve registry config t spec (presetChooser presets) s).1 = .error (.invalidSelection name fault) →
        presets.get? name = some preset → preset.isSearch = true →
          ∃ p ∈ spec.params, p.name = name ∧
            let found := candidates registry config t p
            preset.select name found = .error (.invalidSelection name fault) ∨
              ∃ i r text, Candidate.IsFirst preset.Asks found i (.constant r) ∧
                preset.selection? i = some (.constant i text) ∧ Value.read? r.info.kind text = none ∧
                fault = .unreadable (.unreadable r.info.kind text) := by
  refine ⟨fun p s => ⟨firstCandidate_answers p _ s, fun presets => presetChooser_answers presets p _ s, ?_⟩,
    resolve_firstCandidate_ne,
    fun _ _ _ _ _ _ h hget hsearch => resolve_presetChooser_fails h hget hsearch⟩
  -- what was found stands at its number, so the resolver can only refuse its text
  intro asked sel c h
  exact ⟨h.isFirst.lt_length, h.isFirst.here, fun b => h.handled p b⟩

/-! ## Two columns of one name -/

namespace Twins

def source : Table :=
  { Table.empty "twins" with columns := [⟨.ofKind "n" .integer, []⟩, ⟨.ofKind "n" .integer, []⟩] }

def spec : RoutineSpec :=
  ⟨"count", [⟨"n", none, .input, .i64, none, .any, true⟩]⟩

def found : List Candidate :=
  candidates .builtin .standard source spec.params[0]

/-- The parameter is answered by one preset. -/
def presets (preset : Preset) : Dict Preset :=
  .ofList [("n", preset)]

end Twins

open Twins in
/-- Of two columns of one name the first is bound, and of a constant only the text is refused. -/
theorem twins_agree :
    (presetChooser (presets (.column "n" none)) spec.params[0] found ()).1 = .ok (some (.candidate 0)) ∧
      (∃ c, (Selection.candidate 0).Designates (Preset.column "n" none).Asks found c ∧
        ∀ b, Selection.Handled spec.params[0] found b (.candidate 0)) ∧
      ∃ i r text, Candidate.IsFirst (Preset.constant (.string "many") none).Asks found i (.constant r) ∧
        Value.read? r.info.kind text = none ∧
        (resolve .builtin .standard source spec (presetChooser (presets (.constant (.string "many") none))) ()).1 =
          .error (.invalidSelection "n" (.unreadable (.unreadable r.info.kind text))) := by
  obtain ⟨hchoosers, -, hresolve⟩ := @choosers_agree_with_resolve Unit .builtin .standard source
  obtain ⟨-, hpresets, hhandled⟩ := hchoosers spec.params[0] ()
  -- the column is the first candidate of its name
  have hanswer : (presetChooser (presets (.column "n" none)) spec.params[0] found ()).1 =
      .ok (some (.candidate 0)) := rfl
  obtain ⟨answer, hanswer', hanswers⟩ := hpresets (presets (.column "n" none))
  obtain rfl : answer = .ok (some (.candidate 0)) := (congrArg Prod.fst hanswer').symm.trans hanswer
  obtain ⟨c, hdesignates, -⟩ := (hanswers.selects (.column "n" none) rfl rfl (.candidate 0)).1 rfl
  obtain ⟨-, -, hbound⟩ := hhandled _ _ c hdesignates
  -- the constant is found, and its text is no integer
  have hfails : (resolve .builtin .standard source spec
      (presetChooser (presets (.constant (.string "many") none))) ()).1 =
        .error (.invalidSelection "n" (.unreadable (.unreadable .integer "many"))) := rfl
  obtain ⟨p, hp, -, hfault⟩ := hresolve spec (presets (.constant (.string "many") none)) () "n" _
    (.constant (.string "many") none) hfails rfl rfl
  obtain rfl := List.mem_singleton.1 hp
  refine ⟨hanswer, ⟨c, hdesignates, hbound⟩, ?_⟩
  rcases hfault with hown | ⟨i, r, text, hfirst, -, hread, hfault⟩
  · cases hown
  · refine ⟨i, r, text, hfirst, hread, ?_⟩
    rw [← hfault]
    exact hfails

end TableForest
