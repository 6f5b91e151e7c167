/-!
# Grimace.Proofs.Except

A success taken apart: what two computations in order return, and what the first of
them had to return for it; and what a success has to do with its decision.
-/

variable {ε α β : Type}

/-- Two computations in order succeed if the first does, and the second on its result. -/
theorem Except.bind_eq_ok_iff {x : Except ε α} {f : α → Except ε β} {b : β} :
    x >>= f = .ok b ↔ ∃ a, x = .ok a ∧ f a = .ok b := by
  cases x <;> simp [bind, Except.bind]

/-- Two computations in order fail if the first does, or the second on its result. -/
theorem Except.bind_eq_error_iff {x : Except ε α} {f : α → Except ε β} {e : ε} :
    x >>= f = .error e ↔ x = .error e ∨ ∃ a, x = .ok a ∧ f a = .error e := by
  cases x <;> simp [bind, Except.bind]

theorem Except.pure_eq_ok_iff {a b : α} : (pure a : Except ε α) = .ok b ↔ a = b := by
  simp [pure, Except.pure]

/-- A success goes on with its result. -/
@[simp] theorem Except.ok_bind {a : α} {f : α → Except ε β} : (.ok a : Except ε α) >>= f = f a :=
  rfl

/-- Another wording of failures changes no success. -/
theorem Except.mapError_eq_ok_iff {ε' : Type} {x : Except ε α} {f : ε → ε'} {a : α} :
    x.mapError f = .ok a ↔ x = .ok a := by
  cases x with
  | error e =>
      show (Except.error (f e) : Except ε' α) = .ok a ↔ _
      simp
  | ok b =>
      show (Except.ok b : Except ε' α) = .ok a ↔ _
      simp

/-- Another wording of failures is used for each of them, and for nothing else. -/
theorem Except.mapError_eq_error_iff {ε' : Type} {x : Except ε α} {f : ε → ε'} {e : ε'} :
    x.mapError f = .error e ↔ ∃ d, x = .error d ∧ e = f d := by
  cases x with
  | error d =>
      show (Except.error (f d) : Except ε' α) = .error e ↔ _
      simp [eq_comm]
  | ok a =>
      show (Except.ok a : Except ε' α) = .error e ↔ _
      simp

/-- What is decided to be a success has a result. -/
theorem Except.exists_eq_ok_of_isOk {x : Except ε α} (h : x.isOk = true) : ∃ a, x = .ok a := by
  cases x with
  | error e => contradiction
  | ok a => exact ⟨a, rfl⟩
