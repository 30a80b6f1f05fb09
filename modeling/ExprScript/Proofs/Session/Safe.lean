import ExprScript.Proofs.Eval.NoLapse
import ExprScript.Proofs.Eval.Safe
import ExprScript.Proofs.Session.Step

/-!
# What evaluating a source text comes to

Whatever was evaluated before, evaluating the pending source text yields a value for each of its
statements, or stops with an error of evaluation, or because the source text is refused, holds a
number that is too long to be read, or uses up the limit.  A session that is evaluated with checks
goes the same way, so that nothing that is taken for granted ever goes wrong.
-/

namespace ExprScript

open Stateful

/-- There is a value for every statement that was run. -/
theorem Eval.length_of_statements {limit : Nat} {ss : List Stmt} {m m' : Machine}
    {vs : List Value} (h : (statements limit ss).run m = .ok vs m') :
  vs.length = ss.length
  := by
  induction ss generalizing m vs with
  | nil =>
      cases h
      rfl
  | cons s ss ih =>
      obtain ⟨v, m₁, _, h⟩ := run_bind_eq_ok.mp h
      obtain ⟨ws, m₂, hws, h⟩ := run_bind_eq_ok.mp h
      cases h
      rw [List.length_cons, ih hws, List.length_cons]

namespace Checked

open Session (Step)

/-! ### Sessions with checks -/

/-- Reads and runs the pending source text, with checks. -/
def evaluate (limit : Nat) (s : Session) : Except Failure (List Value) × Session :=
  match (Reader.program limit).run s.pending with
  | .error e rest => (.error (.fault (.ofRead e)), ⟨rest, s.machine⟩)
  | .ok p rest =>
    match (statements limit p.statements).run (s.record (.parsed p.statements.length)).machine with
    | .ok vs m => (.ok vs, ⟨rest, m⟩)
    | .error f m => (.error f, ⟨rest, m⟩)

/-- Does a step, with checks. -/
def step (s : Session) : Step → Except Failure (List Value) × Session
  | .supply source => (.ok [], s.supply source)
  | .evaluate limit => evaluate limit s
  | .flush => (.ok [], s.flush)

/-- The session after some steps with checks. -/
def after (s : Session) (steps : List Step) : Session := steps.foldl (fun s t => (step s t).2) s

theorem evaluate_eq (limit : Nat) (s : Session) :
  evaluate limit s = ((s.evaluate limit).1.mapError .fault, (s.evaluate limit).2)
  := by
  have hlift : ∀ ss m, (statements limit ss).run m = lift (Eval.statements limit ss) m := by
    intro ss m
    rw [statements_eq]
    rfl
  have hevaluated := Session.evaluated limit s
  generalize s.evaluate limit = r at hevaluated ⊢
  unfold evaluate
  cases hevaluated with
  | unread hread =>
      rw [hread]
      rfl
  | failed hread hrun =>
      rw [hread]
      dsimp only
      rw [hlift, lift, hrun]
      rfl
  | done hread hrun =>
      rw [hread]
      dsimp only
      rw [hlift, lift, hrun]
      rfl

theorem after_eq (s : Session) (steps : List Step) :
  after s steps = s.after steps
  := by
  have hstep : ∀ s t, (step s t).2 = (s.step t).2 := by
    intro s t
    cases t with
    | evaluate limit =>
        rw [step, evaluate_eq]
        rfl
    | _ => rfl
  simp only [after, Session.after, hstep]

/-! ### Outcomes -/

/-- What evaluating the pending source text may come to. -/
inductive Outcome (limit : Nat) (s : Session) : Except Failure (List Value) → Prop
  | done {p rest vs} : (Reader.program limit).run s.pending = .ok p rest →
      vs.length = p.statements.length → Outcome limit s (.ok vs)
  | error {p rest e} : (Reader.program limit).run s.pending = .ok p rest →
      e.cause.isSource = false → Outcome limit s (.error (.fault (.error e)))
  | refused {e rest} : (Reader.program limit).run s.pending = .error (.refused e) rest →
      Outcome limit s (.error (.fault (.error (.ofSource e))))
  | oversized {t rest} : (Reader.program limit).run s.pending = .error .oversized rest →
      t ∈ s.pending.ahead → t.kind = .int → Reader.maxDigits < t.literal.length →
      Outcome limit s (.error (.fault .oversized))
  | exhausted : Outcome limit s (.error (.fault .exhausted))

/-- A source text that is not read is refused, or holds a number that is too long, or is nested
too deeply. -/
theorem outcome_of_unread {limit : Nat} {s : Session} (hs : s.pending.Ended) {e : ReadFailure}
    {rest : TokenStream} (h : (Reader.program limit).run s.pending = .error e rest) :
  Outcome limit s (.error (.fault (.ofRead e)))
  := by
  cases e with
  | refused e => exact .refused h
  | exhausted => exact .exhausted
  | oversized =>
      cases (Reader.advances_program limit s.pending hs).stops h with
      | oversized hlater hk hlong =>
          exact .oversized h (hlater.ahead.subset List.mem_cons_self) hk hlong

theorem outcome_of_rests {limit : Nat} {s : Session}
    (hs : Eval.Rests (fun _ => Value.Sane) (fun _ => True) s) :
  Outcome limit s ((s.evaluate limit).1.mapError .fault)
  := by
  have hevaluated := Session.evaluated limit s
  generalize s.evaluate limit = r at hevaluated ⊢
  cases hevaluated with
  | unread hread => apply outcome_of_unread hs.pending hread
  | done hread hrun => exact .done hread (Eval.length_of_statements hrun)
  | @failed p rest f m hread hrun =>
      have hp : p.Parsed := ⟨limit, s.pending, rest, hs.pending, hread⟩
      have hordinary : f.isOrdinary = true := by
        apply (Eval.safe_law.meets_statements _ fun st hst => hp.statements st hst).fault hrun
        apply (Eval.safe_law.rests_quiet hs).sound
      cases f with
      | error e => exact .error hread (Bool.not_eq_true' _ ▸ hordinary)
      | exhausted => exact .exhausted
      | _ => cases hordinary

/-- No internal failure escapes.  A session with checks goes through the states of the session, and
evaluating its pending source text comes to the same with checks as without: to a value for each
statement that was read, to an error, or to a limit that is used up, and to nothing else but a
number in the source text that has too many digits to be read. -/
theorem no_internal_failure (source : String) (steps : List Step) (limit : Nat) :
  after (.start source) steps = (Session.start source).after steps
    ∧ evaluate limit (after (.start source) steps)
      = ((((Session.start source).after steps).evaluate limit).1.mapError .fault,
          (((Session.start source).after steps).evaluate limit).2)
    ∧ Outcome limit (after (.start source) steps)
        (evaluate limit (after (.start source) steps)).1
  := by
  rw [after_eq, evaluate_eq]
  refine ⟨rfl, rfl, outcome_of_rests ?_⟩
  apply Eval.safe_law.rests_after Program.Parsed.statements trivial

end Checked

end ExprScript
