import ExprScript.Proofs.Eval.Simulation
import ExprScript.Proofs.Session.Step

/-!
# Sessions with a direct exit

A session whose programs are evaluated directly goes through the same states as one in which
the values of `return` statements are handed on, and its steps come to the same.  No exit gets
out of a program, because outside of all calls a `return` is an error.
-/

namespace ExprScript

namespace Direct

open Stateful

/-! ### Programs -/

/-- Running statements comes to the same values or the same fault, and to the same state. -/
inductive SameRun : EStateM.Result Fault Machine (List Value) →
    EStateM.Result Exit PlainMachine (List Datum) → Prop
  | ok (ds m) : SameRun (.ok (Datum.values ds) m.val) (.ok ds m)
  | fault (e m) : SameRun (.error e m.val) (.error (.fault e) m)

/-- Outside of all calls a statement yields a value or fails. -/
theorem run_statement (limit : Nat) (s : Stmt) {m : PlainMachine} (hm : m.val.depth = 0) :
  (∃ d m', (statement limit s).run m = .ok d m' ∧ m'.val.depth = 0
      ∧ (Eval.statement limit s).run m.val = .ok d.val m'.val)
    ∨ ∃ e m', (statement limit s).run m = .error (.fault e) m'
      ∧ (Eval.statement limit s).run m.val = .error e m'.val
  := by
  have hrun := (simulatesAll limit).statement s m
  have hmeets : Eval.Meets _ _ _ _ (Eval.statement limit s) m.val :=
    (Eval.plain_law.obeys limit).statement (Eval.sound_of_plain m.plain) trivial
  cases hd : (statement limit s).run m with
  | ok d m' =>
      rw [hd] at hrun
      obtain ⟨_, hstays, _⟩ := hmeets.of_ok hrun
      exact .inl ⟨d, m', rfl, hstays.2.trans hm, hrun⟩
  | error exit m' =>
      rw [hd] at hrun
      cases exit with
      | fault e => exact .inr ⟨e, m', rfl, hrun⟩
      | leave d =>
          obtain ⟨_, hstays, hholds⟩ := hmeets.of_ok hrun
          exact absurd (hstays.2.trans hm) (hholds.inside rfl)

theorem sameRun_statements {limit : Nat} {ss : List Stmt} {m : PlainMachine}
    (hm : m.val.depth = 0) :
  SameRun ((Eval.statements limit ss).run m.val) ((statements limit ss).run m)
  := by
  induction ss generalizing m with
  | nil => exact .ok [] m
  | cons s ss ih =>
      rw [statements, List.mapM_cons, Eval.statements]
      rcases run_statement limit s hm with ⟨d, m', hd, hm', hs⟩ | ⟨e, m', hd, hs⟩
      · rw [run_bind_of_ok hd, run_bind_of_ok hs, EStateM.run_bind, EStateM.run_bind]
        have hss : SameRun ((Eval.statements limit ss).run m'.val)
            ((ss.mapM (statement limit)).run m') := ih hm'
        generalize (Eval.statements limit ss).run m'.val = x at hss ⊢
        generalize (ss.mapM (statement limit)).run m' = y at hss ⊢
        cases hss with
        | ok ds m'' => exact .ok (d :: ds) m''
        | fault e m'' => exact .fault e m''
      · rw [run_bind_of_error hd, run_bind_of_error hs]
        exact .fault e m'

/-! ### Sessions -/

/-- A session over plain values. -/
structure Session where
  pending : TokenStream
  machine : PlainMachine

namespace Session

/-- The session as one over all values. -/
def erase (s : Session) : ExprScript.Session := ⟨s.pending, s.machine.val⟩

/-- A new session with a pending source text. -/
def start (source : String) : Session := ⟨.ofSource source, ⟨.start, Machine.plain_start⟩⟩

/-- Runs the statements of a program. -/
def run (limit : Nat) (s : Session) (p : Program) : Except Exit (List Datum) × Session :=
  match (statements limit p.statements).run s.machine with
  | .ok ds m => (.ok ds, { s with machine := m })
  | .error e m => (.error e, { s with machine := m })

/-- The session with another output and log. -/
def quiet (s : Session) (out : String) (log : Array Event) : Session :=
  { s with machine := ⟨{ s.machine.val with out := out, log := log }, s.machine.plain⟩ }

/-- Adds an event to the log. -/
def record (s : Session) (event : Event) : Session :=
  s.quiet s.machine.val.out (s.machine.val.log.push event)

/-- Reads and runs the pending source text. -/
def evaluate (limit : Nat) (s : Session) : Except Exit (List Datum) × Session :=
  match (Reader.program limit).run s.pending with
  | .error e rest => (.error (.fault (.ofRead e)), { s with pending := rest })
  | .ok p rest => run limit (record { s with pending := rest } (.parsed p.statements.length)) p

/-- Does a step. -/
def step (s : Session) : ExprScript.Session.Step → Except Exit (List Datum) × Session
  | .supply source => (.ok [], { s with pending := .ofSource source })
  | .evaluate limit => s.evaluate limit
  | .flush => (.ok [], s.quiet "" #[])

/-- The session after some steps. -/
def after (s : Session) (steps : List ExprScript.Session.Step) : Session :=
  steps.foldl (fun s t => (s.step t).2) s

/-- A step comes to the same values or the same fault. -/
inductive Same : Except Fault (List Value) → Except Exit (List Datum) → Prop
  | ok (ds) : Same (.ok (Datum.values ds)) (.ok ds)
  | fault (e) : Same (.error e) (.error (.fault e))

/-- Something done with a session comes to the same as what is done directly, and leaves the
same session behind. -/
structure Agrees (x : Except Fault (List Value) × ExprScript.Session)
    (y : Except Exit (List Datum) × Session) : Prop where
  outcome : Same x.1 y.1
  session : x.2 = y.2.erase

theorem agrees_run {s : Session} (hs : s.machine.val.depth = 0) (limit : Nat) (p : Program) :
  Agrees (s.erase.run limit p) (s.run limit p)
  := by
  have hrun : SameRun ((Eval.statements limit p.statements).run s.erase.machine)
      ((statements limit p.statements).run s.machine) := sameRun_statements hs
  unfold ExprScript.Session.run run
  generalize (Eval.statements limit p.statements).run s.erase.machine = x at hrun ⊢
  generalize (statements limit p.statements).run s.machine = y at hrun ⊢
  cases hrun with
  | ok ds m => exact ⟨.ok ds, rfl⟩
  | fault e m => exact ⟨.fault e, rfl⟩

theorem agrees_step {s : Session} (hs : s.machine.val.depth = 0)
    (t : ExprScript.Session.Step) :
  Agrees (s.erase.step t) (s.step t)
  := by
  cases t with
  | supply source => exact ⟨.ok [], rfl⟩
  | flush => exact ⟨.ok [], rfl⟩
  | evaluate limit =>
      rw [ExprScript.Session.step, step, ExprScript.Session.evaluate, evaluate, erase]
      cases (Reader.program limit).run s.pending with
      | error e rest => exact ⟨.fault _, rfl⟩
      | ok p rest =>
          have hrecord : (record { s with pending := rest }
              (.parsed p.statements.length)).machine.val.depth = 0 := hs
          apply agrees_run hrecord limit p

/-- Both sessions go through the same states. -/
theorem erase_after (source : String) (steps : List ExprScript.Session.Step) :
  (ExprScript.Session.start source).after steps = ((start source).after steps).erase
  := by
  have hall : ∀ s : Session, Eval.Rests (fun _ _ => True) (fun _ => True) s.erase →
      s.erase.after steps = (s.after steps).erase := by
    induction steps with
    | nil => exact fun _ _ => rfl
    | cons t steps ih =>
        intro s hs
        have hstep := (agrees_step hs.depth t).session
        have hrests := Eval.plain_law.rests_step (fun _ _ _ => trivial) hs t
        rw [hstep] at hrests
        rw [ExprScript.Session.after_cons, hstep]
        apply ih _ hrests
  apply hall (start source)
  apply Eval.plain_law.rests_after (fun _ _ _ => trivial) trivial source []

end Session

end Direct

namespace Eval

open Stateful

/-- Nothing that is on its way out of a call becomes a result of a program, is bound, or has
something applied to it, at any depth of arrays and maps and at any point of the evaluation. -/
structure PlainRun (limit : Nat) (p : Program) (m : Machine) : Prop where
  results : ∀ {vs m'}, (statements limit p.statements).run m = .ok vs m' → ∀ v ∈ vs, v.Plain
  final : (final ((statements limit p.statements).run m)).Plain
  visited : ∀ {calls limit' n m'}, Visits limit p.statements m calls limit' n m' → m'.Plain
  applied : ∀ {calls limit' n m' a m''}, Visits limit p.statements m calls (limit' + 1) n m' →
    Applies limit' n m' a m'' → ∀ v ∈ a.arguments, v.Plain

theorem plainRun {m : Machine} (hm : m.Plain) (hdepth : m.depth = 0) (limit : Nat)
    (p : Program) :
  PlainRun limit p m
  := by
  have hsound := sound_of_plain hm
  have hmeets : Meets _ _ _ _ (statements limit p.statements) m :=
    plain_law.meets_statements hsound fun _ _ => trivial
  constructor
  · intro vs m' hrun v hv
    obtain ⟨_, hstays, hvs⟩ := hmeets.of_ok hrun
    apply (hvs v hv).value
    apply Bool.eq_false_iff.mpr
    intro hret
    apply (hvs v hv).inside hret (hstays.2.trans hdepth)
  · apply hmeets.kept.bound
  · intro calls limit' n m' hvisits
    apply (plain_law.visits hsound (fun _ _ => trivial) hvisits).1.bound
  · intro calls limit' n m' a m'' hvisits happlies
    have hm' := (plain_law.visits hsound (fun _ _ => trivial) hvisits).1
    apply plain_law.applies hm' trivial happlies

end Eval

namespace Session

/-- Handing on the value of a `return` is a direct exit from the nearest call.  After any steps
of a session, a session evaluated directly is in the same state, every further step and every
program, whatever its tree, comes to the same, and only plain values are results, bound or
applied to. -/
theorem returns_are_exits (source : String) (steps : List Step) :
  (start source).after steps = ((Direct.Session.start source).after steps).erase
    ∧ (∀ t, Direct.Session.Agrees (((start source).after steps).step t)
        (((Direct.Session.start source).after steps).step t))
    ∧ (∀ limit p, Direct.Session.Agrees (((start source).after steps).run limit p)
        (((Direct.Session.start source).after steps).run limit p))
    ∧ ∀ limit p m, ((start source).after steps).Runs limit p m → Eval.PlainRun limit p m
  := by
  have hrests : Eval.Rests (fun _ _ => True) (fun _ => True) ((start source).after steps) :=
    Eval.plain_law.rests_after (fun _ _ _ => trivial) trivial source steps
  have herase := Direct.Session.erase_after source steps
  have hdepth := hrests.depth
  rw [herase] at hdepth
  refine ⟨herase, ?_, ?_, ?_⟩
  · intro t
    rw [herase]
    apply Direct.Session.agrees_step hdepth
  · intro limit p
    rw [herase]
    apply Direct.Session.agrees_run hdepth
  · intro limit p m hruns
    obtain ⟨hm, _, hm₀⟩ := Eval.plain_law.rests_runs hrests hruns
    apply Eval.plainRun hm.bound hm₀

/-- A function that is left from within an array. -/
theorem returns_are_exits_element :
  ∃ p, Program.read 20 "fn() \x7b [1, if true \x7b return 2; \x7d] \x7d()" = .ok p
    ∧ Eval.PlainRun 20 p (start "").machine
  := by
  have hread : ∃ p, Program.read 20 "fn() \x7b [1, if true \x7b return 2; \x7d] \x7d()" = .ok p :=
    ⟨_, by with_unfolding_all rfl⟩
  obtain ⟨p, hp⟩ := hread
  exact ⟨p, hp, (returns_are_exits "" []).2.2.2 20 p _ .alone⟩

end Session

end ExprScript
