import ExprScript.Proofs.Eval.Along
import ExprScript.Proofs.Grammar.Program
import ExprScript.Proofs.Reader.Advance
import ExprScript.Session

/-!
# The course of a session

A session goes on by steps: a source text is supplied, the pending text is evaluated, or what
was printed is forgotten.  A turn is a step, or the run of a program that need not have been read.
Between the turns a session is at rest, in the root scope and outside of all calls, and a law of
evaluation that the programs which are run obey holds of its state.
-/

namespace ExprScript

namespace Session

/-- What can be done with a session. -/
inductive Step where
  | supply (source : String)
  | evaluate (limit : Nat)
  | flush

/-- Does a step: what it comes to, and the session after it. -/
def step (s : Session) : Step → Except Fault (List Value) × Session
  | .supply source => (.ok [], s.supply source)
  | .evaluate limit => s.evaluate limit
  | .flush => (.ok [], s.flush)

/-- The session after some steps. -/
def after (s : Session) (steps : List Step) : Session := steps.foldl (fun s t => (s.step t).2) s

/-- What can be done with a session, the run of a program that was not read included. -/
inductive Turn where
  | step (t : Step)
  | run (limit : Nat) (p : Program)

/-- Does a turn: what it comes to, and the session after it. -/
def turn (s : Session) : Turn → Except Fault (List Value) × Session
  | .step t => s.step t
  | .run limit p => s.run limit p

/-- In the course of turns of a session one of them is done, and it is done in a session. -/
inductive AtTurn : Session → List Turn → Session → Turn → Prop
  | here {s t turns} : AtTurn s (t :: turns) s t
  | later {s t turns s' t'} : AtTurn (s.turn t).2 turns s' t' → AtTurn s (t :: turns) s' t'

/-- A turn of a session runs a program, within a limit, from a state. -/
inductive Turn.Runs (s : Session) : Turn → Nat → Program → Machine → Prop
  | run {limit p} : Runs s (.run limit p) limit p s.machine
  | evaluate {limit p rest} : (Reader.program limit).run s.pending = .ok p rest →
      Runs s (.step (.evaluate limit)) limit p (s.record (.parsed p.statements.length)).machine

/-- A program is run in a session from a state: by itself, or when the pending source text is
evaluated. -/
inductive Runs (s : Session) (limit : Nat) (p : Program) : Machine → Prop
  | alone : Runs s limit p s.machine
  | pending {rest} : (Reader.program limit).run s.pending = .ok p rest →
      Runs s limit p (s.record (.parsed p.statements.length)).machine

/-- The states that a session comes to: between two steps, and whenever the evaluation of a node
of a program that was read begins. -/
inductive Reached : Machine → Prop
  | rest (source : String) (steps : List Step) : Reached ((start source).after steps).machine
  | run {source steps limit p m calls limit' n m'} :
      ((start source).after steps).Runs limit p m → p.Parsed →
      Eval.Visits limit p.statements m calls limit' n m' → Reached m'

/-- The states that a session comes to in the course of turns: before and after each of them, and
whenever the evaluation of a node begins. -/
inductive Comes (s : Session) (turns : List Turn) : Machine → Prop
  | start : Comes s turns s.machine
  | rest {s' t} : AtTurn s turns s' t → Comes s turns (s'.turn t).2.machine
  | run {s' t limit p m calls limit' n m'} : AtTurn s turns s' t → t.Runs s' limit p m →
      Eval.Visits limit p.statements m calls limit' n m' → Comes s turns m'

theorem Turn.Runs.runs {s : Session} {t : Turn} {limit : Nat} {p : Program} {m : Machine}
    (h : t.Runs s limit p m) :
  s.Runs limit p m
  := by
  cases h with
  | run => exact .alone
  | evaluate hread => exact .pending hread

@[simp]
theorem after_nil (s : Session) :
  s.after [] = s
  := rfl

@[simp]
theorem after_cons (s : Session) (t : Step) (steps : List Step) :
  s.after (t :: steps) = (s.step t).2.after steps
  := rfl

theorem run_eq (limit : Nat) (s : Session) (p : Program) :
  (s.run limit p).2
    = { s with machine := Stateful.final ((Eval.statements limit p.statements).run s.machine) }
  := by
  unfold run
  cases (Eval.statements limit p.statements).run s.machine <;> rfl

/-- What evaluating the pending source text comes to: it is not read, or one of the statements that
are read fails, or all of them are run. -/
inductive Evaluated (limit : Nat) (s : Session) : Except Fault (List Value) × Session → Prop
  | unread {e rest} : (Reader.program limit).run s.pending = .error e rest →
      Evaluated limit s (.error (.ofRead e), ⟨rest, s.machine⟩)
  | failed {p rest f m} : (Reader.program limit).run s.pending = .ok p rest →
      (Eval.statements limit p.statements).run (s.record (.parsed p.statements.length)).machine
        = .error f m →
      Evaluated limit s (.error f, ⟨rest, m⟩)
  | done {p rest vs m} : (Reader.program limit).run s.pending = .ok p rest →
      (Eval.statements limit p.statements).run (s.record (.parsed p.statements.length)).machine
        = .ok vs m →
      Evaluated limit s (.ok vs, ⟨rest, m⟩)

theorem evaluated (limit : Nat) (s : Session) :
  Evaluated limit s (s.evaluate limit)
  := by
  cases hread : (Reader.program limit).run s.pending with
  | error e rest =>
      rw [evaluate, hread]
      exact .unread hread
  | ok p rest =>
      rw [evaluate, hread]
      dsimp only [run, record]
      generalize hrun : (Eval.statements limit p.statements).run _ = r
      cases r with
      | ok vs m => exact .done hread hrun
      | error f m => exact .failed hread hrun

/-- A turn fails if the pending source text is not read, or with a fault of the program that it
runs. -/
theorem fault_of_turn {s : Session} {t : Turn} {f : Fault} (h : (s.turn t).1 = .error f) :
  (∃ e, f = .ofRead e)
    ∨ ∃ limit p m m', t.Runs s limit p m
        ∧ (Eval.statements limit p.statements).run m = .error f m'
  := by
  cases t with
  | run limit p =>
      right
      rw [turn, run] at h
      cases hrun : (Eval.statements limit p.statements).run s.machine with
      | ok vs m =>
          rw [hrun] at h
          cases h
      | error e m =>
          rw [hrun] at h
          cases h
          exact ⟨_, _, _, _, .run, hrun⟩
  | step t =>
      cases t with
      | supply | flush => cases h
      | evaluate limit =>
          have hevaluated := evaluated limit s
          rw [turn, step] at h
          generalize s.evaluate limit = r at h hevaluated
          cases hevaluated with
          | unread _ =>
              cases h
              exact .inl ⟨_, rfl⟩
          | failed hread hrun =>
              cases h
              exact .inr ⟨_, _, _, _, .evaluate hread, hrun⟩
          | done _ _ => cases h

/-- A turn fails with the fault of the program that it runs, and in the state of that fault. -/
theorem turn_of_fault {s : Session} {t : Turn} {limit : Nat} {p : Program} {m m' : Machine}
    {f : Fault} (hruns : t.Runs s limit p m)
    (h : (Eval.statements limit p.statements).run m = .error f m') :
  (s.turn t).1 = .error f ∧ (s.turn t).2.machine = m'
  := by
  cases hruns with
  | run =>
      rw [turn, run, h]
      exact ⟨rfl, rfl⟩
  | evaluate hread =>
      rw [turn, step, evaluate, hread]
      dsimp only [run, record] at h ⊢
      rw [h]
      exact ⟨rfl, rfl⟩

end Session

namespace Eval

open Stateful Session

/-- The session is at rest, and its state is one that a law is about. -/
structure Rests (A : Heap → Value → Prop) (J : Machine → Prop) (s : Session) : Prop where
  pending : s.pending.Ended
  sound : Sound A J s.machine
  cursor : s.machine.cursor = Machine.root
  depth : s.machine.depth = 0

variable {E : Fault → Prop} {A : Heap → Value → Prop} {J : Machine → Prop}
  {R S : Machine → Machine → Prop} {s : Session} {limit : Nat}

/-- A new session is at rest. -/
theorem rests_start (hstart : J Machine.start) (source : String) :
  Rests A J (Session.start source)
  := by
  refine ⟨TokenStream.ofSource_ended source, ⟨hstart, ?_⟩, rfl, rfl⟩
  intro i p hp
  rw [Session.start, Machine.start, Heap.bindings_create] at hp
  cases hp

namespace Basis

variable (law : Basis E A J R S)

include law

theorem rests_quiet {out : String} {log : Array Event} (hs : Rests A J s) :
  Rests A J { s with machine := { s.machine with out := out, log := log } }
  := ⟨hs.pending, law.sound_quiet hs.sound (Nat.le_refl _), hs.cursor, hs.depth⟩

/-- Programs are run at rest. -/
theorem rests_runs {p : Program} {m : Machine} (hs : Rests A J s) (h : s.Runs limit p m) :
  Sound A J m ∧ m.cursor = Machine.root ∧ m.depth = 0
  := by
  cases h with
  | alone => exact ⟨hs.sound, hs.cursor, hs.depth⟩
  | pending _ => exact ⟨law.sound_quiet hs.sound (Nat.le_refl _), hs.cursor, hs.depth⟩

end Basis

/-! ### Turns -/

/-- What a turn comes to: a session at rest, and results that a law is about. -/
structure Settles (A : Heap → Value → Prop) (J : Machine → Prop)
    (r : Except Fault (List Value) × Session) : Prop where
  rests : Rests A J r.2
  results : ∀ vs, r.1 = .ok vs → ∀ v ∈ vs, Fine A r.2.machine.heap v

/-- A regime is about the statements of a program that is run from a state, whenever they start. -/
def Suits (Fit : Nat → Node → Machine → Prop) (limit : Nat) (p : Program) (m : Machine) : Prop :=
  ∀ st m', Starts limit p.statements m st m' → m'.depth = m.depth → Fit limit (.stmt st) m'

namespace Regime

variable {Fit : Nat → Node → Machine → Prop} (law : Regime E A J R S Fit)

include law

theorem settles_run {p : Program} (hs : Rests A J s) (hp : Suits Fit limit p s.machine) :
  Settles A J (s.run limit p)
  := by
  have hmeets : Meets E (Sound A J) S (fun m' vs => ∀ v ∈ vs, Holds (Fine A) m' v)
      (statements limit p.statements) s.machine := law.meets_statements hs.sound hp
  obtain ⟨hcursor, hdepth⟩ := law.stays hmeets.related
  have hrests : Rests A J (s.run limit p).2 := by
    rw [run_eq]
    exact ⟨hs.pending, hmeets.kept, hcursor.trans hs.cursor, hdepth.trans hs.depth⟩
  refine ⟨hrests, ?_⟩
  unfold Session.run at hrests ⊢
  cases hrun : (statements limit p.statements).run s.machine with
  | error e m => exact nofun
  | ok vs m =>
      rw [hrun] at hrests
      intro ws hws v hv
      cases hws
      -- Outside of all calls no value is on its way out.
      have hholds := hmeets.result hrun v hv
      have hret : v.isReturned = false := by
        rw [← Bool.not_eq_true]
        intro hret
        apply hholds.inside hret hrests.depth
      apply hholds.value hret

theorem settles_turn {t : Turn} (hs : Rests A J s)
    (ht : ∀ {limit p m}, t.Runs s limit p m → Suits Fit limit p m) :
  Settles A J (s.turn t)
  := by
  cases t with
  | run limit p => apply law.settles_run hs (ht .run)
  | step t =>
      cases t with
      | supply source =>
          refine ⟨⟨TokenStream.ofSource_ended source, hs.sound, hs.cursor, hs.depth⟩, ?_⟩
          rintro vs ⟨⟩ v hv
          cases hv
      | flush =>
          refine ⟨law.rests_quiet hs, ?_⟩
          rintro vs ⟨⟩ v hv
          cases hv
      | evaluate limit =>
          have hlater := (Reader.advances_program limit s.pending hs.pending).later
          rw [turn, step, evaluate]
          split
          · rename_i e rest hrun
            rw [hrun] at hlater
            exact ⟨⟨hlater.ended hs.pending, hs.sound, hs.cursor, hs.depth⟩, nofun⟩
          · rename_i p rest hrun
            rw [hrun] at hlater
            have hrest : Rests A J { s with pending := rest } :=
              ⟨hlater.ended hs.pending, hs.sound, hs.cursor, hs.depth⟩
            apply law.settles_run (law.rests_quiet hrest)
            apply ht (.evaluate hrun)

/-- A session is at rest before each of its turns, if the regime is about what they run. -/
theorem rests_at {turns : List Turn} (hs : Rests A J s)
    (hsuits : ∀ {s' t}, AtTurn s turns s' t → Rests A J s' →
      ∀ {limit p m}, t.Runs s' limit p m → Suits Fit limit p m)
    {s' : Session} {t : Turn} (h : AtTurn s turns s' t) :
  Rests A J s'
  := by
  induction h with
  | here => apply hs
  | later _ ih =>
      apply ih (law.settles_turn hs (hsuits .here hs)).rests
      intro s₁ t₁ h₁
      apply hsuits (.later h₁)

/-- A regime holds of every state that a session comes to, if it is about what the turns run. -/
theorem sound_comes {turns : List Turn} (hs : Rests A J s)
    (hsuits : ∀ {s' t}, AtTurn s turns s' t → Rests A J s' →
      ∀ {limit p m}, t.Runs s' limit p m → Suits Fit limit p m)
    {m : Machine} (h : Comes s turns m) :
  Sound A J m
  := by
  cases h with
  | start => exact hs.sound
  | rest hat =>
      have hrests := law.rests_at hs hsuits hat
      apply (law.settles_turn hrests (hsuits hat hrests)).rests.sound
  | run hat hruns hvisits =>
      have hrests := law.rests_at hs hsuits hat
      have hm := (law.rests_runs hrests hruns.runs).1
      apply (law.visits hm (hsuits hat hrests hruns) hvisits).1

end Regime

namespace Law

variable {Good : Nat → Node → Prop} (law : Law E A J R S Good)

include law

section

variable (hread : ∀ {p : Program}, p.Parsed → ∀ st ∈ p.statements, Good 0 (.stmt st))

include hread

theorem settles_step (hs : Rests A J s) (t : Step) :
  Settles A J (s.step t)
  := by
  apply law.regime.settles_turn (t := .step t) hs
  intro limit p m hruns
  cases hruns with
  | evaluate hrun =>
      rintro st m' ⟨hss, -⟩ hdepth
      rw [hdepth]
      apply hs.depth.symm ▸ hread ⟨limit, s.pending, _, hs.pending, hrun⟩ st
      rw [hss]
      apply List.mem_append_right _ List.mem_cons_self

theorem rests_step (hs : Rests A J s) (t : Step) :
  Rests A J (s.step t).2
  := (law.settles_step hread hs t).rests

/-- Whatever the steps, a session comes to rest after each of them. -/
theorem rests_after (hstart : J Machine.start) (source : String) (steps : List Step) :
  Rests A J ((Session.start source).after steps)
  := by
  have hall : ∀ s, Rests A J s → Rests A J (s.after steps) := by
    induction steps with
    | nil => exact fun _ hs => hs
    | cons t steps ih =>
        intro s hs
        rw [after_cons]
        apply ih _ (law.rests_step hread hs t)
  apply hall
  apply rests_start hstart

/-- A law holds of every state that a session comes to. -/
theorem sound_reached (hstart : J Machine.start) {m : Machine} (h : Reached m) :
  Sound A J m
  := by
  cases h with
  | rest source steps => apply (law.rests_after hread hstart source steps).sound
  | run hruns hp hvisits =>
      have hrests := law.rests_after hread hstart
      obtain ⟨hm, _, hdepth⟩ := law.rests_runs (hrests _ _) hruns
      apply (law.visits hm _ hvisits).1
      rw [hdepth]
      apply hread hp

end

end Law

end Eval

end ExprScript
