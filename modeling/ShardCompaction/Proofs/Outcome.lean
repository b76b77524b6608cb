namespace ShardCompaction

variable {ε σ α β : Type}

/-- The result of a computation, or its error. -/
def outcome (x : EStateM ε σ α) (s : σ) : Except ε α :=
  match x s with
  | .ok a _ => .ok a
  | .error e _ => .error e

/-- The state that a computation leaves, also if it fails. -/
def stateAfter (x : EStateM ε σ α) (s : σ) : σ :=
  match x s with
  | .ok _ s' => s'
  | .error _ s' => s'

theorem eq_ok_iff {x : EStateM ε σ α} {s s' : σ} {a : α} :
    x s = .ok a s' ↔ outcome x s = .ok a ∧ stateAfter x s = s' := by
  rw [outcome, stateAfter]
  cases x s <;> simp

theorem eq_error_iff {x : EStateM ε σ α} {s s' : σ} {e : ε} :
    x s = .error e s' ↔ outcome x s = .error e ∧ stateAfter x s = s' := by
  rw [outcome, stateAfter]
  cases x s <;> simp

theorem bind_of_ok {x : EStateM ε σ α} {f : α → EStateM ε σ β} {s s' : σ} {a : α}
    (h : x s = .ok a s') : (x >>= f) s = f a s' := by
  change EStateM.bind x f s = _
  rw [EStateM.bind, h]

theorem bind_of_error {x : EStateM ε σ α} {f : α → EStateM ε σ β} {s s' : σ} {e : ε}
    (h : x s = .error e s') : (x >>= f) s = .error e s' := by
  change EStateM.bind x f s = _
  rw [EStateM.bind, h]

theorem outcome_bind (x : EStateM ε σ α) (f : α → EStateM ε σ β) (s : σ) :
    outcome (x >>= f) s = outcome x s >>= fun a => outcome (f a) (stateAfter x s) := by
  simp only [outcome, stateAfter, bind, EStateM.bind, Except.bind]
  cases x s <;> rfl

theorem stateAfter_bind (x : EStateM ε σ α) (f : α → EStateM ε σ β) (s : σ) :
    stateAfter (x >>= f) s = match outcome x s with
      | .ok a => stateAfter (f a) (stateAfter x s)
      | .error _ => stateAfter x s := by
  simp only [outcome, stateAfter, bind, EStateM.bind]
  cases x s <;> rfl

section Bind

variable {x : EStateM ε σ α} {f : α → EStateM ε σ β} {s : σ} {a : α} {e : ε}

theorem outcome_bind_of_ok (h : outcome x s = .ok a) :
    outcome (x >>= f) s = outcome (f a) (stateAfter x s) := by
  rw [outcome_bind, h]
  rfl

theorem outcome_bind_of_error (h : outcome x s = .error e) : outcome (x >>= f) s = .error e := by
  rw [outcome_bind, h]
  rfl

theorem stateAfter_bind_of_ok (h : outcome x s = .ok a) :
    stateAfter (x >>= f) s = stateAfter (f a) (stateAfter x s) := by
  rw [stateAfter_bind, h]

theorem stateAfter_bind_of_error (h : outcome x s = .error e) :
    stateAfter (x >>= f) s = stateAfter x s := by
  rw [stateAfter_bind, h]

theorem stateAfter_bind_pure (x : EStateM ε σ α) (f : α → β) (s : σ) :
    stateAfter (x >>= fun a => pure (f a)) s = stateAfter x s := by
  rw [stateAfter_bind]
  cases outcome x s <;> rfl

end Bind

end ShardCompaction
