/-!
# Steps that may stop

A program changes what it keeps step by step, and it may be stopped on its way: by a failure that it reports, or by a
panic where it reaches past the end of a list or finds an assertion broken.  What has been changed until then stays
changed.
-/

namespace TableForest

/-- What stops an operation before its end. -/
inductive Halt (ε : Type) where
  | failed (e : ε)
  | panicked
  deriving DecidableEq

def Halt.map {ε ε' : Type} (f : ε → ε') : Halt ε → Halt ε'
  | failed e => failed (f e)
  | panicked => panicked

/-- Changes of what is kept that may stop at any point, with what is kept as it is at that point. -/
abbrev Steps (σ ε α : Type) := ExceptT (Halt ε) (StateM σ) α

namespace Steps

variable {σ ε ε' α : Type}

/-- The answer of some steps, and what is kept after the last of them that was taken. -/
def execute (steps : Steps σ ε α) (s : σ) : Except (Halt ε) α × σ :=
  (ExceptT.run steps).run s |>.run

def fail (e : ε) : Steps σ ε α :=
  throw (.failed e)

/-- Goes on with the result of a check that looks at no more than it was given. -/
def check (result : Except ε α) : Steps σ ε α :=
  ExceptT.mk (pure (result.mapError .failed))

/-- Takes what stands at an index; nothing there is a panic. -/
def seek (found : Option α) : Steps σ ε α :=
  match found with
  | some a => pure a
  | none => throw .panicked

def assert (holds : Bool) : Steps σ ε Unit :=
  if holds then pure () else throw .panicked

/-- Steps with their failure as one of another sort. -/
def wrapping (wrap : ε → ε') (steps : Steps σ ε α) : Steps σ ε' α :=
  ExceptT.adapt (Halt.map wrap) steps

/-- Whether steps get to their end, whatever they answer and however they fail. -/
def outcome (steps : Steps σ ε α) : Steps σ Unit Unit := do
  let _ ← wrapping (fun _ => ()) steps

end Steps
end TableForest
