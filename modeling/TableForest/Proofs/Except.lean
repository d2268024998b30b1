/-!
# Computations that may fail

What is known of the steps of a computation once it is known whether the whole succeeds.
-/

namespace TableForest.Except

variable {ε α β : Type}

/-- A computation succeeds if its first step does, and then the rest of it. -/
theorem bind_eq_ok {x : Except ε α} {next : α → Except ε β} {b : β} :
    x >>= next = .ok b ↔ ∃ a, x = .ok a ∧ next a = .ok b := by
  cases x with
  | error e => simp [bind, Except.bind]
  | ok a => simp [bind, Except.bind]

/-- A computation fails if its first step does, or the rest of it. -/
theorem bind_eq_error {x : Except ε α} {next : α → Except ε β} {e : ε} :
    x >>= next = .error e ↔ x = .error e ∨ ∃ a, x = .ok a ∧ next a = .error e := by
  cases x with
  | error e => simp [bind, Except.bind]
  | ok a => simp [bind, Except.bind]

theorem map_eq_ok {x : Except ε α} {f : α → β} {b : β} : x.map f = .ok b ↔ ∃ a, x = .ok a ∧ f a = b := by
  cases x with
  | error e => simp [Except.map]
  | ok a => simp [Except.map]

theorem map_eq_error {x : Except ε α} {f : α → β} {e : ε} : x.map f = .error e ↔ x = .error e := by
  cases x with
  | error e => simp [Except.map]
  | ok a => simp [Except.map]

theorem mapError_eq_ok {ε' : Type} {x : Except ε α} {f : ε → ε'} {a : α} : x.mapError f = .ok a ↔ x = .ok a := by
  constructor
  · intro h
    cases x with
    | error e => cases h
    | ok b => rw [Except.ok.inj h]
  · rintro rfl
    rfl

theorem mapError_eq_error {ε' : Type} {x : Except ε α} {f : ε → ε'} {e : ε'} :
    x.mapError f = .error e ↔ ∃ cause, x = .error cause ∧ f cause = e := by
  constructor
  · intro h
    cases x with
    | error cause => exact ⟨cause, rfl, Except.error.inj h⟩
    | ok a => cases h
  · rintro ⟨cause, rfl, rfl⟩
    rfl

/-- A check that holds along a list holds for each of its members. -/
theorem forM_eq_ok {check : α → Except ε Unit} {xs : List α} (h : xs.forM check = .ok ()) :
    ∀ x ∈ xs, check x = .ok () := by
  induction xs with
  | nil => simp
  | cons x rest ih =>
    obtain ⟨u, hx, hrest⟩ := bind_eq_ok.1 h
    exact List.forall_mem_cons.2 ⟨hx, ih hrest⟩

theorem forM_of_forall {check : α → Except ε Unit} {xs : List α} (h : ∀ x ∈ xs, check x = .ok ()) :
    xs.forM check = .ok () := by
  induction xs with
  | nil => rfl
  | cons x rest ih =>
    rw [List.forall_mem_cons] at h
    exact bind_eq_ok.2 ⟨(), h.1, ih h.2⟩

/-- A computation that succeeds along a list succeeds for each of its members. -/
theorem exists_of_mapM_eq_ok {f : α → Except ε β} {xs : List α} {bs : List β} (h : xs.mapM f = .ok bs) :
    ∀ x ∈ xs, ∃ b, f x = .ok b := by
  induction xs generalizing bs with
  | nil => simp
  | cons x rest ih =>
    rw [List.mapM_cons] at h
    obtain ⟨b, hx, h⟩ := bind_eq_ok.1 h
    obtain ⟨cs, hrest, -⟩ := bind_eq_ok.1 h
    exact List.forall_mem_cons.2 ⟨⟨b, hx⟩, ih hrest⟩

theorem mapM_cons_eq_error {f : α → Except ε β} {x : α} {xs : List α} {e : ε} :
    (x :: xs).mapM f = .error e ↔ f x = .error e ∨ ∃ b, f x = .ok b ∧ xs.mapM f = .error e := by
  rw [List.mapM_cons, bind_eq_error]
  simp [bind_eq_error, pure, Except.pure]

theorem mapM_append_eq_error {f : α → Except ε β} {xs ys : List α} {e : ε} :
    (xs ++ ys).mapM f = .error e ↔ xs.mapM f = .error e ∨ ∃ bs, xs.mapM f = .ok bs ∧ ys.mapM f = .error e := by
  rw [List.mapM_append, bind_eq_error]
  simp [bind_eq_error, pure, Except.pure]

/-- A computation along a list fails as it does for the first member for which it fails. -/
theorem mapM_eq_error_of_first {f : α → Except ε β} {before after : List α} {x : α} {e : ε}
    (hbefore : ∀ a ∈ before, ∃ b, f a = .ok b) (hx : f x = .error e) :
    (before ++ x :: after).mapM f = .error e := by
  induction before with
  | nil => exact mapM_cons_eq_error.2 (.inl hx)
  | cons a rest ih =>
    rw [List.forall_mem_cons] at hbefore
    obtain ⟨⟨b, ha⟩, hrest⟩ := hbefore
    exact mapM_cons_eq_error.2 (.inr ⟨b, ha, ih hrest⟩)

end TableForest.Except
