/-!
# Work that changes a state and may fail

Decoding, linking and execution all are such work; a failure keeps the state that it was met in. The
lemmas say how the outcome of a composed piece of work follows from its parts.
-/

namespace ClassMachine.Work

variable {ε σ α β : Type}

@[simp]
theorem run_throw (e : ε) (s : σ) : (throw e : EStateM ε σ α).run s = .error e s :=
  rfl

@[simp]
theorem run_map (f : α → β) (work : EStateM ε σ α) (s : σ) :
    (f <$> work).run s =
      match work.run s with
      | .ok a s => .ok (f a) s
      | .error e s => .error e s := by
  cases h : work.run s <;> simp only [EStateM.run] at h ⊢ <;> simp [Functor.map, EStateM.map, h]

/-- Runs to the end and gives how it went as a value. -/
def attempt (work : EStateM ε σ α) : EStateM ε σ (Except ε α) :=
  tryCatch (Except.ok <$> work) (pure ∘ Except.error)

@[simp]
theorem run_attempt (work : EStateM ε σ α) (s : σ) :
    (attempt work).run s =
      match work.run s with
      | .ok a s => .ok (.ok a) s
      | .error e s => .ok (.error e) s := by
  have h := run_map (Except.ok : α → Except ε α) work s
  show EStateM.tryCatch (Except.ok <$> work) (pure ∘ Except.error) s = _
  delta EStateM.tryCatch
  cases hs : work.run s <;> simp only [EStateM.run] at h hs ⊢ <;> simp only [h, hs]
  rfl

end ClassMachine.Work
