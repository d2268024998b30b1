import TableForest.Cell.Error
import TableForest.Proofs.Text.Blank

/-!
# Names of kinds

A kind has several names, and a text stands for it if it is one of them without the blanks around it, in any case.  No
text stands for two kinds, and what stands for none is refused (**`Kind.parse_eq_ok_iff`**,
**`Kind.parse_eq_error_iff`**).
-/

namespace TableForest.Kind

/-- The names of a kind, in lower case and its own name first. -/
def names : Kind → List String
  | logical => ["logical", "boolean", "bool"]
  | integer => ["integer", "int"]
  | numeric => ["numeric", "number", "float", "double"]
  | text => ["text", "string"]
  | fileLink => ["file-link", "filelink", "file", "link"]

/-- A text names a kind: what stands between the blanks around it is a name of the kind, in any case. -/
def NamedBy (kind : Kind) (s : String) : Prop :=
  ∃ word, Text.Trimmed s.toList word ∧ ∃ name ∈ kind.names, word.map Char.toLower = name.toList

theorem ofName?_eq_some_iff {s : String} {kind : Kind} : ofName? s = some kind ↔ s ∈ kind.names := by
  constructor
  · intro h
    unfold ofName? at h
    -- one case for each line of the table, and one for all other texts
    split at h
    case h_16 => cases h
    all_goals
      obtain rfl := Option.some.inj h
      decide
  · intro h
    cases kind <;> simp only [names, List.mem_cons, List.not_mem_nil, or_false] at h
    case logical => rcases h with rfl | rfl | rfl <;> rfl
    case integer => rcases h with rfl | rfl <;> rfl
    case numeric => rcases h with rfl | rfl | rfl | rfl <;> rfl
    case text => rcases h with rfl | rfl <;> rfl
    case fileLink => rcases h with rfl | rfl | rfl | rfl <;> rfl

theorem read?_eq_some_iff {s : String} {kind : Kind} : read? s = some kind ↔ kind.NamedBy s := by
  have hlower : (Text.lowerAscii (Text.trim s)).toList = (Text.trimBlanks s.toList).map Char.toLower := by
    rw [Text.lowerAscii, Text.trim, String.toList_ofList, String.toList_ofList]
  rw [read?, ofName?_eq_some_iff]
  constructor
  · exact fun h => ⟨_, Text.trimmed_trimBlanks s.toList, _, h, hlower.symm⟩
  · rintro ⟨word, htrimmed, name, hname, hword⟩
    rw [← htrimmed.trimBlanks_eq, ← hlower, String.toList_inj] at hword
    rwa [hword]

/-- **A text is read as the kind that it names**, and no text names two. -/
theorem parse_eq_ok_iff {s : String} {kind : Kind} : Kind.parse s = .ok kind ↔ kind.NamedBy s := by
  rw [← read?_eq_some_iff]
  unfold Kind.parse
  cases read? s <;> simp

/-- **A text that names no kind is refused**, and the failure shows it as it is. -/
theorem parse_eq_error_iff {s : String} {e : CellError} :
    Kind.parse s = .error e ↔ (∀ kind : Kind, ¬kind.NamedBy s) ∧ e = .unknownKind s := by
  have hnone : read? s = none ↔ ∀ kind : Kind, ¬kind.NamedBy s := by
    rw [Option.eq_none_iff_forall_ne_some]
    exact forall_congr' fun kind => not_congr read?_eq_some_iff
  rw [← hnone]
  unfold Kind.parse
  cases read? s <;> simp [eq_comm]

/-- Every kind is named by its own name. -/
example : (all.map fun kind => Kind.parse kind.name) = all.map .ok := by decide

end TableForest.Kind
