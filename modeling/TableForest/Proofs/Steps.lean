import TableForest.Steps

/-!
# Running steps

What single steps answer and leave, and how steps that follow each other are taken apart.
-/

namespace TableForest.Steps

variable {σ ε ε' α β : Type} {s : σ}

@[simp] theorem execute_pure (a : α) : execute (pure a : Steps σ ε α) s = (.ok a, s) := by
  rfl

/-- A step that stops ends the whole, and what is kept stays as it is then. -/
theorem execute_bind (steps : Steps σ ε α) (next : α → Steps σ ε β) :
    execute (steps >>= next) s =
      match execute steps s with
      | (.ok a, s') => execute (next a) s'
      | (.error h, s') => (.error h, s') := by
  simp only [execute, ExceptT.run_bind, StateT.run_bind, Id.run_bind]
  rcases (ExceptT.run steps).run s |>.run with ⟨h | a, s'⟩ <;> rfl

theorem execute_bind_ok {steps : Steps σ ε α} {next : α → Steps σ ε β} {a : α} {s' : σ}
    (h : execute steps s = (.ok a, s')) : execute (steps >>= next) s = execute (next a) s' := by
  rw [execute_bind, h]

@[simp] theorem execute_get_bind (next : σ → Steps σ ε β) :
    execute (get >>= next) s = execute (next s) s := by
  rfl

@[simp] theorem execute_modify (f : σ → σ) :
    execute (modify f : Steps σ ε Unit) s = (.ok (), f s) := by
  rfl

@[simp] theorem execute_modify_bind (f : σ → σ) (next : Unit → Steps σ ε β) :
    execute (modify f >>= next) s = execute (next ()) (f s) := by
  rfl

@[simp] theorem execute_fail (e : ε) : execute (fail e : Steps σ ε α) s = (.error (.failed e), s) := by
  rfl

@[simp] theorem execute_check (result : Except ε α) :
    execute (check result) s = (result.mapError .failed, s) := by
  rfl

@[simp] theorem execute_seek_some (a : α) : execute (seek (some a) : Steps σ ε α) s = (.ok a, s) := by
  rfl

theorem execute_assert {holds : Bool} (h : holds = true) :
    execute (assert holds : Steps σ ε Unit) s = (.ok (), s) := by
  subst h
  rfl

theorem execute_wrapping (wrap : ε → ε') (steps : Steps σ ε α) :
    execute (wrapping wrap steps) s =
      ((execute steps s).1.mapError (Halt.map wrap), (execute steps s).2) := by
  rw [execute, execute, wrapping]
  rfl

/-- A loop of checks leaves what is kept as it is. -/
theorem execute_forM_check {γ : Type} {body : γ → Steps σ ε Unit} {test : γ → Except ε Unit}
    (hbody : ∀ x, execute (body x) s = ((test x).mapError .failed, s)) (xs : List γ) :
    execute (xs.forM body) s = ((xs.forM test).mapError .failed, s) := by
  induction xs with
  | nil => rfl
  | cons x rest ih =>
    rw [List.forM, List.forM, execute_bind, hbody]
    cases test x with
    | error e => rfl
    | ok u => exact ih

end TableForest.Steps
