import ExprScript.Proofs.Eval.Plain
import ExprScript.Proofs.Session.Step

/-!
# Scopes and calls are left again

Every evaluation ends in the scope and at the depth of calls where it began, and what it reaches
on the way lies deeper by the number of calls that are entered for it.  So after every step a
session is in its root scope and outside of all calls, whatever has failed.
-/

namespace ExprScript

namespace Eval

open Stateful

variable {limit : Nat} {m m' : Machine}

/-! ### Depths on the way -/

theorem depth_yields {n : Node} {v : Value} (hm : m.Plain) (h : Yields limit n m v m') :
  m'.Plain ∧ m'.depth = m.depth
  := by
  obtain ⟨hm', hstays, _⟩ := plain_law.yields (sound_of_plain hm) trivial h
  exact ⟨hm'.bound, hstays.2⟩

theorem depth_yieldsAll {es : List Expr} {vs : List Value} (hm : m.Plain)
    (h : YieldsAll limit es m vs m') :
  m'.Plain ∧ m'.depth = m.depth ∧ ∀ v ∈ vs, v.Plain
  := by
  obtain ⟨hm', hstays, hvs⟩ := plain_law.yieldsAll (sound_of_plain hm) (fun _ _ => trivial) h
  exact ⟨hm'.bound, hstays.2, hvs⟩

theorem depth_begins {ns : List Node} {n : Node} (hm : m.Plain) (h : Begins limit ns m n m') :
  m'.depth = m.depth
  := by
  induction h with
  | head => rfl
  | tail hy _ ih =>
      obtain ⟨hm₁, hdepth⟩ := depth_yields hm hy
      apply (ih hm₁).trans hdepth

/-- What is entered lies deeper by the calls that are entered for it. -/
theorem depth_enters {calls : Nat} {n n' : Node} (hm : m.Plain)
    (h : Enters limit calls n m n' m') :
  m'.depth = m.depth + calls
  := by
  cases h with
  | opening hb => apply depth_begins hm hb
  | ret _ => rfl
  | block hb =>
      have henter : (m.enter m.cursor [] m.depth).Plain := hm.create (some m.cursor)
      apply depth_begins henter hb
  | and hy | or hy | consequence hy | alternative hy => apply (depth_yields hm hy).2
  | argument _ hy _ hb =>
      obtain ⟨hm₁, hdepth⟩ := depth_yields hm hy
      apply (depth_begins hm₁ hb).trans hdepth
  | @body _ _ _ _ c m₁ vs m₂ _ _ _ hy _ hvs hb =>
      obtain ⟨hm₁, hdepth₁⟩ := depth_yields hm hy
      obtain ⟨hm₂, hdepth₂, hplain⟩ := depth_yieldsAll hm₁ hvs
      have hcall : Sound (fun _ _ => True) (fun _ => True) (m₂.call c vs) :=
        plain_law.sound_call (sound_of_plain hm₂) trivial hplain
      have hdepth : (m₂.call c vs).depth = m.depth + 1 := by
        rw [← hdepth₁, ← hdepth₂]
        rfl
      apply (depth_begins hcall.bound hb).trans hdepth

/-- What is reached lies deeper by the calls that it is part of. -/
theorem depth_reaches {calls limit limit' : Nat} {n n' : Node} (hm : m.Plain)
    (h : Reaches calls limit n m limit' n' m') :
  m'.depth = m.depth + calls
  := by
  induction h with
  | refl => rfl
  | step he _ ih =>
      have hm₁ := (plain_law.enters (sound_of_plain hm) trivial he).1.bound
      rw [ih hm₁, depth_enters hm he, Nat.add_assoc]

theorem depth_visits {ss : List Stmt} {calls limit' : Nat} {n : Node} (hm : m.Plain)
    (h : Visits limit ss m calls limit' n m') :
  m'.depth = m.depth + calls
  := by
  obtain ⟨rfl, hbefore, hreach⟩ := h
  rename_i before s after vs m₁
  have hmeets : Meets _ _ Stays _ (statements limit before) m :=
    plain_law.meets_statements (sound_of_plain hm) fun _ _ => trivial
  obtain ⟨hm₁, hstays, _⟩ := hmeets.of_ok hbefore
  rw [depth_reaches hm₁.bound hreach, hstays.2]

/-- The evaluation of a node ends in the scope and at the depth where it began. -/
theorem stays_node (n : Node) (hm : m.Plain) :
  Stays m (final ((node limit n).run m))
  := by
  cases n with
  | expr e => apply ((plain_law.obeys limit).expression (sound_of_plain hm) trivial).related
  | stmt s => apply ((plain_law.obeys limit).statement (sound_of_plain hm) trivial).related

end Eval

namespace Session

open Stateful Eval

/-- Scopes and calls are left again.  After every step of a session, failed or not, the current
scope is the root scope and the depth is zero.  At every point of the evaluation of a program the
depth is the number of calls that are under way, and whatever is evaluated there ends in the same
scope and at the same depth, with a value or with a fault. -/
theorem scope_and_depth_restored (source : String) (steps : List Step) :
  ((start source).after steps).machine.cursor = Machine.root
    ∧ ((start source).after steps).machine.depth = 0
    ∧ ∀ limit p m calls limit' n m', ((start source).after steps).Runs limit p m →
      Visits limit p.statements m calls limit' n m' →
      m'.depth = calls ∧ Stays m' (final ((node limit' n).run m'))
  := by
  have hrests : Rests (fun _ _ => True) (fun _ => True) ((start source).after steps) :=
    plain_law.rests_after (fun _ _ _ => trivial) trivial source steps
  refine ⟨hrests.cursor, hrests.depth, ?_⟩
  intro limit p m calls limit' n m' hruns hvisits
  obtain ⟨hm, _, hdepth⟩ := plain_law.rests_runs hrests hruns
  have hm' := (plain_law.visits hm (fun _ _ => trivial) hvisits).1
  refine ⟨?_, stays_node n hm'.bound⟩
  rw [depth_visits hm.bound hvisits, hdepth, Nat.zero_add]

/-- The body of a function that is called outside of all calls is evaluated at depth one. -/
theorem scope_and_depth_restored_call :
  ∃ m', Visits 3 [.expr none (.call none (.fn none [] (.block none [.ret none (.int none 1)])) [])]
      (start "").machine 1 1 (.stmt (.ret none (.int none 1))) m'
    ∧ m'.depth = 1 ∧ Stays m' (final ((node 1 (.stmt (.ret none (.int none 1)))).run m'))
  := by
  have hbody : ∃ m', Visits 3
      [.expr none (.call none (.fn none [] (.block none [.ret none (.int none 1)])) [])]
      (start "").machine 1 1 (.stmt (.ret none (.int none 1))) m' := by
    refine ⟨Machine.call { Machine.start with made := 1, log := #[.created [] 0] }
      ⟨0, [], .block none [.ret none (.int none 1)], 0⟩ [], ?_⟩
    apply @Visits.intro _ _ _ (0 + (1 + 0)) _ _ _ [] _ [] [] _ rfl rfl
    apply Reaches.step (.opening .head)
    exact .step (.body rfl ⟨rfl, rfl⟩ rfl (by exact rfl) .head) .refl
  obtain ⟨m', hvisits⟩ := hbody
  exact ⟨m', hvisits, (scope_and_depth_restored "" []).2.2 3 ⟨_⟩ _ 1 1 _ m' .alone hvisits⟩

end Session

end ExprScript
