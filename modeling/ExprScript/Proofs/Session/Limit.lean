import ExprScript.Proofs.Eval.Limit
import ExprScript.Proofs.Reader.Terminates
import ExprScript.Proofs.Session.Step

/-!
# What a session owes to its limit

The limit that a source text is evaluated within decides nothing but whether it is enough.  Where
it is, a larger limit leads to the same results, the same state and the same failures.  Where it is
not, what was printed by then is the beginning of what is printed within the larger one.
-/

namespace ExprScript

namespace Session

open Eval Stateful

/-- The limit is used up by reading the pending source text or by running it. -/
def Exhausts (limit : Nat) (s : Session) : Prop := (s.evaluate limit).1 = .error .exhausted

instance (limit : Nat) (s : Session) : Decidable (s.Exhausts limit) :=
  decidable_of_iff ((s.evaluate limit).1.map (fun _ => ()) = .error .exhausted) (by
    rw [Exhausts]
    cases (s.evaluate limit).1 <;> simp [Except.map])

/-- What the run of a program comes to, behind which some tokens are left. -/
def outcome (rest : TokenStream) :
    EStateM.Result Fault Machine (List Value) → Except Fault (List Value) × Session
  | .ok vs m => (.ok vs, ⟨rest, m⟩)
  | .error f m => (.error f, ⟨rest, m⟩)

variable {limit limit' : Nat} {s : Session} {rest : TokenStream}

theorem evaluate_eq_outcome {p : Program}
    (h : (Reader.program limit).run s.pending = .ok p rest) :
  s.evaluate limit
    = outcome rest ((statements limit p.statements).run
        (s.record (.parsed p.statements.length)).machine)
  := by
  rw [evaluate, h]
  rfl

theorem machine_outcome (r : EStateM.Result Fault Machine (List Value)) :
  (outcome rest r).2.machine = final r
  := by
  cases r <;> rfl

/-- Evaluating a source text prints behind what was printed before. -/
theorem prints_evaluate (limit : Nat) (s : Session) :
  s.machine.Prints (s.evaluate limit).2.machine
  := by
  cases hread : (Reader.program limit).run s.pending with
  | error e rest =>
      rw [evaluate, hread]
      exact .of_eq rfl
  | ok p rest =>
      rw [evaluate_eq_outcome hread, machine_outcome]
      apply (widens_statements (Nat.le_refl limit) p.statements).prints

/-- Evaluating within the second limit comes to the same as within the first one, or the first one
is used up before. -/
inductive Outlasts (limit limit' : Nat) (s : Session) : Prop
  | same : s.evaluate limit' = s.evaluate limit → Outlasts limit limit' s
  | exhausted : s.Exhausts limit →
      (s.evaluate limit).2.machine.Prints (s.evaluate limit').2.machine → Outlasts limit limit' s

/-- A source text that is read within both limits is run within them. -/
theorem outlasts_run {p : Program} (hle : limit ≤ limit')
    (h : (Reader.program limit).run s.pending = .ok p rest)
    (h' : (Reader.program limit').run s.pending = .ok p rest) :
  Outlasts limit limit' s
  := by
  have hrun := (widens_statements hle p.statements).run
    (s.record (.parsed p.statements.length)).machine
  have heval := evaluate_eq_outcome h
  have heval' := evaluate_eq_outcome h'
  generalize (statements limit p.statements).run _ = r, (statements limit' p.statements).run _ = r'
    at hrun heval heval'
  cases hrun with
  | same => exact .same (heval'.trans heval.symm)
  | exhausted hprints =>
      apply Outlasts.exhausted
      · rw [Exhausts, heval]
        rfl
      · rw [heval, heval', machine_outcome, machine_outcome]
        exact hprints

theorem outlasts_of_le (hs : s.pending.Ended) (hle : limit ≤ limit') :
  Outlasts limit limit' s
  := by
  by_cases hread : ∃ rest, (Reader.program limit).run s.pending = .error .exhausted rest
  · obtain ⟨rest, hread⟩ := hread
    have heval : s.evaluate limit = (.error .exhausted, ⟨rest, s.machine⟩) := by
      rw [evaluate, hread]
      rfl
    apply Outlasts.exhausted
    · rw [Exhausts, heval]
    · rw [heval]
      exact prints_evaluate limit' s
  · have hsame : (Reader.program limit').run s.pending = (Reader.program limit).run s.pending :=
      Reader.run_program_eq_of_le hs (fun rest h => hread ⟨rest, h⟩) hle
    cases hprogram : (Reader.program limit).run s.pending with
    | error e rest =>
        apply Outlasts.same
        rw [evaluate, evaluate, hsame, hprogram]
    | ok p rest => apply outlasts_run hle hprogram (hsame.trans hprogram)

/-- A limit decides nothing unless it is used up.  A source text that is evaluated in any session
without using up its limit comes to the same within every larger one: to the same results or the
same failure, to the same bindings and the same text.  One that uses up the larger limit uses up the
smaller one.  In any case the text that is printed within the smaller limit is the beginning of
what is printed within the larger one. -/
theorem limit_matters_if_used_up (s : Session) (source : String) {limit limit' : Nat}
    (hle : limit ≤ limit') :
  (¬ (s.supply source).Exhausts limit →
      (s.supply source).evaluate limit' = (s.supply source).evaluate limit)
    ∧ ((s.supply source).Exhausts limit' → (s.supply source).Exhausts limit)
    ∧ ((s.supply source).evaluate limit).2.machine.Prints
        ((s.supply source).evaluate limit').2.machine
  := by
  have hended : (s.supply source).pending.Ended := TokenStream.ofSource_ended source
  cases outlasts_of_le hended hle with
  | same h =>
      refine ⟨fun _ => h, ?_, ?_⟩
      · rw [Exhausts, Exhausts, h]
        exact id
      · rw [h]
        exact .of_eq rfl
  | exhausted h hprints => exact ⟨fun hcopes => absurd h hcopes, fun _ => h, hprints⟩

/-- A function that counts down prints all numbers within a limit of 22 and of 40, and the first two
of them within a limit of 14. -/
theorem limit_matters_if_used_up_countdown :
  let source :=
    "let f = fn(n) \x7b println(n); if n > 0 \x7b f(n - 1) \x7d else \x7b n \x7d \x7d; f(3)"
  let s := (start "").supply source
  (s.Exhausts 14 ∧ (s.evaluate 14).2.machine.out = "3\n2\n")
    ∧ (¬ s.Exhausts 22 ∧ s.evaluate 40 = s.evaluate 22)
    ∧ (s.evaluate 14).2.machine.Prints (s.evaluate 22).2.machine
  := by
  intro source s
  have hcopes : ¬ s.Exhausts 22 := by decide +kernel
  have hwide := limit_matters_if_used_up (start "") source (by decide : 22 ≤ 40)
  have hnarrow := limit_matters_if_used_up (start "") source (by decide : 14 ≤ 22)
  exact ⟨by decide +kernel, ⟨hcopes, hwide.1 hcopes⟩, hnarrow.2.2⟩

end Session

end ExprScript
