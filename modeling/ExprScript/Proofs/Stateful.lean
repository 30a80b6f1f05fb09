/-!
# Computations with a state and failures

Readers and evaluations are computations that yield a result or a failure, and a state in
either case.  A sequence of two computations is taken apart here into the runs of the two.
-/

namespace ExprScript.Stateful

variable {ε σ α β : Type}

/-- The state that a run ends in, whether with a result or with a failure. -/
def final : EStateM.Result ε σ α → σ
  | .ok _ s => s
  | .error _ s => s

@[simp]
theorem final_ok (a : α) (s : σ) :
  final (.ok a s : EStateM.Result ε σ α) = s
  := rfl

@[simp]
theorem final_error (e : ε) (s : σ) :
  final (.error e s : EStateM.Result ε σ α) = s
  := rfl

/-- The run with its last state changed. -/
def withFinal (f : σ → σ) : EStateM.Result ε σ α → EStateM.Result ε σ α
  | .ok a s => .ok a (f s)
  | .error e s => .error e (f s)

@[simp]
theorem final_withFinal (f : σ → σ) (r : EStateM.Result ε σ α) :
  final (withFinal f r) = f (final r)
  := by
  cases r <;> rfl

/-- A failure ends a computation of any kind of results. -/
@[simp]
theorem run_throw (e : ε) (s : σ) :
  (throw e : EStateM ε σ α).run s = .error e s
  := rfl

theorem run_get_bind (f : σ → EStateM ε σ α) (s : σ) :
  (get >>= f).run s = (f s).run s
  := rfl

/-- A sequence goes on from the result of its first part. -/
theorem run_bind_of_ok {x : EStateM ε σ α} {f : α → EStateM ε σ β} {s s' : σ} {a : α}
    (h : x.run s = .ok a s') :
  (x >>= f).run s = (f a).run s'
  := by
  rw [EStateM.run_bind, h]

/-- A sequence fails with its first part. -/
theorem run_bind_of_error {x : EStateM ε σ α} {f : α → EStateM ε σ β} {s s' : σ} {e : ε}
    (h : x.run s = .error e s') :
  (x >>= f).run s = .error e s'
  := by
  rw [EStateM.run_bind, h]

/-- A sequence has a result exactly when its two parts have one after the other. -/
theorem run_bind_eq_ok {x : EStateM ε σ α} {f : α → EStateM ε σ β} {s s'' : σ} {b : β} :
  (x >>= f).run s = .ok b s''
    ↔ ∃ a s', x.run s = .ok a s' ∧ (f a).run s' = .ok b s''
  := by
  rw [EStateM.run_bind]
  constructor
  · intro h
    split at h
    · rename_i a s' hx
      exact ⟨a, s', hx, h⟩
    · cases h
  · rintro ⟨a, s', hx, hf⟩
    rw [hx]
    apply hf

/-- A sequence fails exactly when its first part does, or its second part after it. -/
theorem run_bind_eq_error {x : EStateM ε σ α} {f : α → EStateM ε σ β} {s s'' : σ} {e : ε} :
  (x >>= f).run s = .error e s''
    ↔ x.run s = .error e s'' ∨ ∃ a s', x.run s = .ok a s' ∧ (f a).run s' = .error e s''
  := by
  rw [EStateM.run_bind]
  cases hx : x.run s with
  | ok a s' =>
      constructor
      · intro h
        exact .inr ⟨a, s', rfl, h⟩
      · rintro (h | ⟨_, _, h, hf⟩)
        · cases h
        · cases h
          apply hf
  | error e' s' => simp

/-! ### Failures that are caught -/

theorem run_tryCatch_of_ok {x : EStateM ε σ α} {handle : ε → EStateM ε σ α} {s s' : σ} {a : α}
    (h : x.run s = .ok a s') :
  (tryCatch x handle).run s = .ok a s'
  := by
  have hrun : (tryCatch x handle).run s = EStateM.tryCatch x handle s := rfl
  have hx : x s = .ok a s' := h
  rw [hrun]
  delta EStateM.tryCatch
  simp only [hx]

theorem run_tryCatch_of_error {x : EStateM ε σ α} {handle : ε → EStateM ε σ α} {s s' : σ} {e : ε}
    (h : x.run s = .error e s') :
  (tryCatch x handle).run s = (handle e).run s'
  := by
  have hrun : (tryCatch x handle).run s = EStateM.tryCatch x handle s := rfl
  have hx : x s = .error e s' := h
  rw [hrun]
  delta EStateM.tryCatch
  simp only [hx]
  rfl

end ExprScript.Stateful
