import TableForest.Binding.Candidate

/-!
# Choosers

A chooser answers for one parameter after the other which of its candidates is taken.  It may have a
state, give no answer, or fail.
-/

namespace TableForest

/-- The answer for a parameter. -/
inductive Selection where
  /-- The column or new column of a number. -/
  | candidate (index : Nat)
  /-- The constant of a number, with its value as text. -/
  | constant (index : Nat) (text : String)
  deriving DecidableEq, Repr

def Selection.index : Selection → Nat
  | candidate index => index
  | constant index _ => index

/-- Answers for one parameter after the other. -/
abbrev Chooser (σ : Type) :=
  ParamSpec → List Candidate → σ → Except BindingError (Option Selection) × σ

/-- Takes the first candidate that is no constant. -/
def firstCandidate {σ : Type} : Chooser σ := fun _ found s =>
  (.ok ((found.findIdx? (!·.isConstant)).map Selection.candidate), s)

end TableForest
