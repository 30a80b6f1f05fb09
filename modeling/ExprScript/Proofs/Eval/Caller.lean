import ExprScript.Proofs.Eval.Congruence

/-!
# Calls apart from their callers

An evaluation can be put on top of another state: inside the calls that this state is in, behind the
text it has printed and the events it has logged.  There it comes to the same.  It does so within
any larger limit as well, unless its own limit is used up.  Only a `return` looks at the number of
calls, and only whether it is zero; nothing looks at serial numbers.  So a call comes to what it
comes to from nowhere, and the caller gets back the scope and the depth that it had.
-/

namespace ExprScript

open Stateful

/-! ### States on top of others -/

/-- The event with more calls around it. -/
def Event.deeper (calls : Nat) : Event → Event
  | .called parameters depth => .called parameters (calls + depth)
  | event => event

namespace Machine

/-- The state on top of another one, in whose calls, behind whose text and behind whose log it
is. -/
def atop (around m : Machine) : Machine :=
  { m with
    depth := around.depth + m.depth
    out := around.out ++ m.out
    log := around.log ++ m.log.map (.deeper around.depth) }

/-- The state without the calls it is in, and before anything was printed or logged. -/
def alone (m : Machine) : Machine := { m with depth := 0, out := "", log := #[] }

/-- The state after a call that was made in `m` and came to `m'` on its own. -/
def resume (m m' : Machine) : Machine := { m.atop m' with cursor := m.cursor, depth := m.depth }

variable (around m : Machine)

theorem atop_enter (outer : ScopeId) (bindings : List (String × Value)) (depth : Nat) :
  around.atop (m.enter outer bindings depth)
    = (around.atop m).enter outer bindings (around.depth + depth)
  := rfl

theorem atop_record {event event' : Event} (h : event.deeper around.depth = event') :
  around.atop (m.record event) = (around.atop m).record event'
  := by
  have hlog : around.log ++ (m.log.push event).map (Event.deeper around.depth)
      = (around.log ++ m.log.map (Event.deeper around.depth)).push event' := by
    rw [Array.map_push, Array.append_push, h]
  rw [atop, record, record, atop, ← hlog]

theorem atop_call (c : Closure) (args : List Value) :
  around.atop (m.call c args) = (around.atop m).call c args
  := by
  rw [call, call, atop_enter, atop_record _ _ rfl]
  rfl

/-- A call that is made alone and put on top of the caller is made from there. -/
theorem atop_call_alone (c : Closure) (args : List Value) :
  m.atop (m.alone.call c args) = m.call c args
  := by
  have halone : m.atop m.alone = m := by
    simp [atop, alone]
  rw [atop_call, halone]

end Machine

namespace Eval

/-! ### Runs on top of others -/

section

variable (loose : Prop) {α : Type}

/-- A run comes to the same on top of another state, or it has used up its limit and that is
allowed. -/
inductive Carries (around : Machine) :
    EStateM.Result Fault Machine α → EStateM.Result Fault Machine α → Prop
  | same (r) : Carries around r (withFinal around.atop r)
  | exhausted {m r} : loose → Carries around (.error .exhausted m) r

/-- On top of any state, the second evaluation comes to what the first one comes to on its own.  A
state outside of all calls has to stay outside. -/
structure Regardless (x y : Eval α) : Prop where
  depth : ∀ m, (final (x.run m)).depth = m.depth
  run : ∀ around m : Machine, (m.depth = 0 → around.depth = 0) →
    Carries loose around (x.run m) (y.run (around.atop m))

end

variable {loose : Prop} {α β : Type}

/-! ### Sequences -/

theorem Regardless.bind {x y : Eval α} {f g : α → Eval β} (hx : Regardless loose x y)
    (hf : ∀ a, Regardless loose (f a) (g a)) :
  Regardless loose (x >>= f) (y >>= g)
  := by
  constructor
  · intro m
    have hdepth := hx.depth m
    rw [EStateM.run_bind]
    cases h : x.run m with
    | ok a m₁ =>
        rw [h] at hdepth
        exact ((hf a).depth m₁).trans hdepth
    | error e m₁ =>
        rw [h] at hdepth
        exact hdepth
  · intro around m hm
    have hdepth := hx.depth m
    have hrun := hx.run around m hm
    rw [EStateM.run_bind, EStateM.run_bind]
    generalize x.run m = r, y.run (around.atop m) = r' at hdepth hrun
    cases hrun with
    | exhausted h => exact .exhausted h
    | same =>
        cases r with
        | ok a m₁ =>
            rw [final_ok] at hdepth
            apply (hf a).run around m₁
            rw [hdepth]
            apply hm
        | error e m₁ => exact .same (.error e m₁)

theorem regardless_pure (a : α) :
  Regardless loose (pure a) (pure a)
  := ⟨fun _ => rfl, fun _ m _ => .same (.ok a m)⟩

theorem regardless_throw (e : Fault) :
  Regardless loose (throw e : Eval α) (throw e)
  := ⟨fun _ => rfl, fun _ m _ => .same (.error e m)⟩

theorem regardless_get {f g : Machine → Eval α}
    (h : ∀ around m : Machine, (m.depth = 0 → around.depth = 0) →
      Regardless loose (f m) (g (around.atop m))) :
  Regardless loose (get >>= f) (get >>= g)
  := ⟨fun m => (h m m id).depth m, fun around m hm => (h around m hm).run around m hm⟩

/-! ### Single operations -/

theorem regardless_print (text : String) :
  Regardless loose (print text) (print text)
  := by
  refine ⟨fun _ => rfl, ?_⟩
  intro around m _
  have hprint : (print text).run (around.atop m)
      = withFinal around.atop ((print text).run m) := by
    have hout : (around.out ++ m.out) ++ text = around.out ++ (m.out ++ text) :=
      String.append_assoc ..
    exact congrArg (fun out => EStateM.Result.ok () { around.atop m with out := out }) hout
  rw [hprint]
  exact .same _

theorem regardless_record {event : Event} (h : ∀ calls, event.deeper calls = event) :
  Regardless loose (record event) (record event)
  := by
  refine ⟨fun _ => rfl, ?_⟩
  intro around m _
  have hrecord : (record event).run (around.atop m)
      = withFinal around.atop ((record event).run m) := by
    exact congrArg (EStateM.Result.ok ()) (around.atop_record m (h _)).symm
  rw [hrecord]
  exact .same _

theorem regardless_lookup? (name : String) :
  Regardless loose (lookup? name) (lookup? name)
  := ⟨fun _ => rfl, fun _ m _ => .same ((lookup? name).run m)⟩

theorem regardless_define (name : String) (v : Value) :
  Regardless loose (define name v) (define name v)
  := ⟨fun _ => rfl, fun _ m _ => .same ((define name v).run m)⟩

theorem regardless_serial :
  Regardless loose serial serial
  := ⟨fun _ => rfl, fun _ m _ => .same (serial.run m)⟩

theorem regardless_close (parameters : List String) (body : Stmt) :
  Regardless loose (close parameters body) (close parameters body)
  := by
  apply regardless_get
  intro around m _
  apply (regardless_record fun _ => rfl).bind
  intro _
  apply regardless_serial.bind
  intro i
  apply regardless_pure

/-! ### Blocks and calls -/

/-- Work that starts further in and comes back out is put on top of a state as a whole. -/
theorem Regardless.inner {x y : Eval α} (h : Regardless loose x y) {around m : Machine}
    (hm : m.depth = 0 → around.depth = 0) {f f' : Machine → Machine}
    (hf : ∀ m', m'.depth = m.depth → f' (around.atop m') = around.atop (f m')) :
  Carries loose around (withFinal f (x.run m)) (withFinal f' (y.run (around.atop m)))
  := by
  have hdepth := h.depth m
  have hrun := h.run around m hm
  generalize x.run m = r, y.run (around.atop m) = r' at hdepth hrun
  cases hrun with
  | exhausted h => exact .exhausted h
  | same =>
      cases r with
      | ok a m₁ =>
          have hback : withFinal f' (withFinal around.atop (.ok a m₁))
              = withFinal around.atop (.ok (ε := Fault) a (f m₁)) :=
            congrArg (EStateM.Result.ok a) (hf m₁ hdepth)
          rw [hback]
          exact .same (.ok a (f m₁))
      | error e m₁ =>
          have hback : withFinal f' (withFinal around.atop (.error e m₁))
              = withFinal around.atop (.error (α := α) e (f m₁)) :=
            congrArg (EStateM.Result.error e) (hf m₁ hdepth)
          rw [hback]
          exact .same (.error e (f m₁))

/-! ### Nodes -/

theorem regardless_congruence :
  Congruence (Regardless loose)
  where
  bind := Regardless.bind
  pure := regardless_pure
  throw := regardless_throw
  lookup? := regardless_lookup?
  define := regardless_define
  serial := regardless_serial
  close := regardless_close
  print := regardless_print
  inside pos hx := by
    apply regardless_get
    intro around m hm
    -- The number of calls is zero on its own exactly if it is zero on top of the other state.
    have hdepth : (around.atop m).depth = 0 ↔ m.depth = 0 := by
      rw [Machine.atop, Nat.add_eq_zero_iff]
      exact ⟨And.right, fun h => ⟨hm h, h⟩⟩
    simp only [hdepth]
    split
    · apply regardless_throw
    · apply hx
  inBlock hx := by
    constructor
    · intro m
      rw [run_inBlock, final_withFinal, hx.depth]
      rfl
    · intro around m hm
      rw [run_inBlock, run_inBlock]
      apply hx.inner (m := m.enter m.cursor [] m.depth) hm
      intro m₁ _
      rfl
  inCall c args hx := by
    constructor
    · intro m
      rw [run_inCall, final_withFinal, hx.depth]
      rfl
    · intro around m _
      rw [run_inCall, run_inCall, ← Machine.atop_call]
      apply hx.inner
      · intro h
        cases h
      · intro m₁ hdepth
        rw [Machine.atop, Machine.atop, hdepth]
        rfl

/-- The second limit is the first one, or a larger one and that is allowed. -/
structure Extends (loose : Prop) (limit limit' : Nat) : Prop where
  le : limit ≤ limit'
  loose : limit ≠ limit' → loose

variable {limit limit' : Nat}

/-- All nodes come to the same within the second limit and on top of any state. -/
theorem regardlessAt (h : Extends loose limit limit') :
  RelatedAt (Regardless loose) limit limit'
  := by
  by_cases hlimit : limit = limit'
  · subst hlimit
    apply regardless_congruence.related_self
  · apply regardless_congruence.related_of_le _ h.le
    exact fun _ => ⟨fun _ => rfl, fun _ _ _ => .exhausted (h.loose hlimit)⟩

/-! ### Calls -/

/-- What the body of a closure comes to in a call that is made alone. -/
def bodyAlone (limit : Nat) (c : Closure) (args : List Value) (m : Machine) :
    EStateM.Result Fault Machine Value :=
  (runAll (statement limit) .unit c.body.statements >>= fun v => pure v.content).run
    (m.alone.call c args)

/-- A call comes to what its body comes to alone, within any larger limit as well. -/
theorem run_invoke_of_extends (h : Extends loose limit limit') (c : Closure) (args : List Value)
    (m : Machine) :
  (invoke (statement limit') c args).run m = withFinal m.resume (bodyAlone limit c args m)
    ∨ loose ∧ ∃ m₁, bodyAlone limit c args m = .error .exhausted m₁
  := by
  have hbody : Regardless loose
      (runAll (statement limit) .unit c.body.statements >>= fun v => pure v.content)
      (runAll (statement limit') .unit c.body.statements >>= fun v => pure v.content) :=
    (regardless_congruence.runAll (regardlessAt h).statement .unit _).bind fun v =>
      regardless_pure v.content
  have hdepth := hbody.depth (m.alone.call c args)
  have hrun := hbody.run m (m.alone.call c args) nofun
  rw [run_invoke, ← Machine.atop_call_alone]
  rw [← bodyAlone] at hdepth hrun
  generalize bodyAlone limit c args m = r at hdepth hrun ⊢
  generalize EStateM.run _ (m.atop (m.alone.call c args)) = r' at hrun ⊢
  cases hrun with
  | exhausted h => exact .inr ⟨h, _, rfl⟩
  | same =>
      have hresume : ∀ m₁ : Machine, m₁.depth = 1 →
          { m.atop m₁ with cursor := m.cursor, depth := (m.atop m₁).depth - 1 } = m.resume m₁ := by
        intro m₁ h₁
        simp only [Machine.resume, Machine.atop, h₁, Nat.add_sub_cancel]
      left
      cases r with
      | ok v m₁ => exact congrArg (EStateM.Result.ok v) (hresume m₁ hdepth)
      | error e m₁ => exact congrArg (EStateM.Result.error e) (hresume m₁ hdepth)

theorem run_invoke_alone (limit : Nat) (c : Closure) (args : List Value) (m : Machine) :
  (invoke (statement limit) c args).run m = withFinal m.resume (bodyAlone limit c args m)
  := by
  have h : Extends False limit limit := ⟨Nat.le_refl limit, fun hne => hne rfl⟩
  rcases run_invoke_of_extends h c args m with h | ⟨h, -⟩
  · apply h
  · exact h.elim

theorem bodyAlone_ne_exhausted {c : Closure} {args : List Value} {m : Machine}
    (h : ∀ m₁, (invoke (statement limit) c args).run m ≠ .error .exhausted m₁) (m₁ : Machine) :
  bodyAlone limit c args m ≠ .error .exhausted m₁
  := by
  intro hbody
  rw [run_invoke_alone, hbody] at h
  exact h _ rfl

/-- A body that does not use up its limit comes to the same within a larger one. -/
theorem run_invoke_of_le (h : limit ≤ limit') {c : Closure} {args : List Value} {m : Machine}
    (hcopes : ∀ m₁, bodyAlone limit c args m ≠ .error .exhausted m₁) :
  (invoke (statement limit') c args).run m = withFinal m.resume (bodyAlone limit c args m)
  := by
  have h : Extends True limit limit' := ⟨h, fun _ => trivial⟩
  rcases run_invoke_of_extends h c args m with h | ⟨-, m₁, h⟩
  · apply h
  · apply absurd h (hcopes m₁)

theorem Applies.run_closure {n : Node} {m m' : Machine} {c : Closure} {args : List Value}
    (h : Applies limit n m (.closure c args) m') :
  (node (limit + 1) n).run m = (invoke (statement limit) c args).run m'
  := by
  cases h with
  | @closure pos callee args _ _ m₁ _ _ hdirect hcallee hlength hargs =>
      have hrun : (expression limit callee).run m = .ok (.fn c) m₁ := hcallee.run
      rw [node, expression, hdirect, run_bind_of_ok hrun]
      simp only [proceed, Value.isReturned, hlength, withAll, Bool.false_eq_true, if_false, if_true]
      rw [run_bind_of_ok hargs]

/-! ### Numbers -/

/-- The second serial number is the first one, or both are given out at the same point, counting
from `made` and from `made'`. -/
def Renumbers (made made' i j : Serial) : Prop := i = j ∨ ∃ k, i = made + k ∧ j = made' + k

/-- Bodies are the same, and so are serial numbers but for those that are given out from `made` and
from `made'` on. -/
def renumbering (made made' : Serial) : Likeness := ⟨Renumbers made made', Eq⟩

theorem shedding_empty (made made' : Serial) :
  Shedding (Renumbers made made') (fun _ => False) = renumbering made made'
  := by
  have hbody : (Shedding (Renumbers made made') fun _ => False).body = Eq := by
    funext s t
    apply propext
    constructor
    · rintro ⟨kept, hkept, rfl⟩
      cases kept with
      | true => exact s.recast_id.symm
      | false => exact (hkept rfl).elim
    · rintro rfl
      exact (shedding_refl fun _ => .inl rfl).body s
  rw [renumbering, ← hbody]
  rfl

/-- Within one limit the body of a closure comes to the same alone from states with the same heap,
but for the numbers of what it makes. -/
theorem ends_bodyAlone {m m' : Machine} (hheap : m.heap = m'.heap) (limit : Nat) (c : Closure)
    (args : List Value) (lead : Leader) :
  Ends (renumbering m.made m'.made) (Value.Alike (renumbering m.made m'.made)) lead
    (bodyAlone limit c args m) (bodyAlone limit c args m')
  := by
  rw [← shedding_empty]
  have hrefl : ∀ i, Renumbers m.made m'.made i i := fun _ => .inl rfl
  have hcall : m.alone.call c args = { m'.alone.call c args with made := m.made } := by
    simp only [Machine.call, Machine.enter, Machine.record, Machine.alone, hheap]
  have hm : (m.alone.call c args).Alike (Shedding (Renumbers m.made m'.made) fun _ => False)
      (m'.alone.call c args) := by
    rw [hcall]
    exact ⟨.refl (shedding_refl hrefl) _, rfl, rfl, fun k => .inr ⟨k, rfl, rfl⟩, rfl, rfl⟩
  have hcovers : lead.Covers 0 0 limit limit := by
    cases lead with
    | grouped => exact Nat.le_refl limit
    | ungrouped => exact Nat.le_of_eq (Nat.mul_one limit)
  have hbody : Ends (Shedding (Renumbers m.made m'.made) fun _ => False)
      (Value.Alike (Shedding (Renumbers m.made m'.made) fun _ => False)) lead
      ((runAll (statement limit) .unit c.body.statements).run (m.alone.call c args))
      ((runAll (statement limit) .unit (c.body.statements.map id)).run
        (m'.alone.call c args)) := by
    apply ends_runAll hm .unit
    intro s m₁ m₁' _ hm₁
    have hs := @follows _ _ _ hrefl region_empty lead limit (.stmt s) true limit m₁ m₁'
      Bool.noConfusion hcovers hm₁ fun _ _ _ _ _ _ h => h.elim
    rw [Node.recast, Stmt.recast_id] at hs
    exact hs
  rw [List.map_id] at hbody
  apply hbody.bind
  intro v w m₁ m₁' _ hvw hm₁
  exact .ok hvw.content hm₁

/-- Of two runs that end alike whichever leads, both or none use up their limits. -/
theorem exhausted_iff {B : Likeness} {P : α → β → Prop} {r : EStateM.Result Fault Machine α}
    {r' : EStateM.Result Fault Machine β} (h : ∀ lead, Ends B P lead r r') :
  (∃ m, r = .error .exhausted m) ↔ ∃ m, r' = .error .exhausted m
  := by
  constructor
  · rintro ⟨m, rfl⟩
    cases h .ungrouped with
    | fault | ungrouped => exact ⟨_, rfl⟩
  · rintro ⟨m, rfl⟩
    cases h .grouped with
    | fault | grouped => exact ⟨_, rfl⟩

/-- Scoping is static: a call cannot see its caller.  A closure is called with the same arguments in
two states with the same heap.  Whatever the current scopes, the depths, the texts printed and the
logs are, both calls come to the same, each on top of the state it was made in: to one and the same
if as many things were made before, and else to the same but for the numbers of what they make.  The
limits do not matter as long as they are the same or not used up.  And wherever a program makes such
a call, it comes to just that. -/
theorem call_apart_from_caller {c : Closure} {args : List Value} {m m' : Machine}
    (hheap : m.heap = m'.heap) {limit limit' : Nat}
    (hlimit : limit = limit'
      ∨ (∀ m₁, (invoke (statement limit) c args).run m ≠ .error .exhausted m₁)
        ∧ ∀ m₁, (invoke (statement limit') c args).run m' ≠ .error .exhausted m₁) :
  ∃ r r', (invoke (statement limit) c args).run m = withFinal m.resume r
    ∧ (invoke (statement limit') c args).run m' = withFinal m'.resume r'
    ∧ (m.made = m'.made → r = r')
    ∧ (∀ lead, Ends (renumbering m.made m'.made) (Value.Alike (renumbering m.made m'.made)) lead
        r r')
    ∧ (∀ n m₀, Applies limit n m₀ (.closure c args) m →
        (node (limit + 1) n).run m₀ = withFinal m.resume r)
    ∧ ∀ n m₀, Applies limit' n m₀ (.closure c args) m' →
        (node (limit' + 1) n).run m₀ = withFinal m'.resume r'
  := by
  have hends : ∀ limit lead, Ends _ _ lead (bodyAlone limit c args m) (bodyAlone limit c args m') :=
    fun limit lead => ends_bodyAlone hheap limit c args lead
  have hruns : ∃ least,
      (invoke (statement limit) c args).run m = withFinal m.resume (bodyAlone least c args m)
        ∧ (invoke (statement limit') c args).run m'
          = withFinal m'.resume (bodyAlone least c args m') := by
    rcases hlimit with rfl | ⟨hcopes, hcopes'⟩
    · exact ⟨limit, run_invoke_alone .., run_invoke_alone ..⟩
    · rcases Nat.le_total limit limit' with hle | hle
      · refine ⟨limit, run_invoke_alone .., run_invoke_of_le hle ?_⟩
        intro m₁ hm₁
        obtain ⟨m₂, hm₂⟩ := (exhausted_iff (hends limit)).mpr ⟨m₁, hm₁⟩
        apply bodyAlone_ne_exhausted hcopes m₂ hm₂
      · refine ⟨limit', run_invoke_of_le hle ?_, run_invoke_alone ..⟩
        intro m₁ hm₁
        obtain ⟨m₂, hm₂⟩ := (exhausted_iff (hends limit')).mp ⟨m₁, hm₁⟩
        apply bodyAlone_ne_exhausted hcopes' m₂ hm₂
  obtain ⟨least, hm, hm'⟩ := hruns
  refine ⟨_, _, hm, hm', ?_, hends least, ?_, ?_⟩
  · intro hmade
    have hcall : m.alone.call c args = m'.alone.call c args := by
      simp only [Machine.call, Machine.enter, Machine.record, Machine.alone, hheap, hmade]
    rw [bodyAlone, bodyAlone, hcall]
  · intro n m₀ h
    rw [h.run_closure, hm]
  · intro n m₀ h
    rw [h.run_closure, hm']

/-- An array of the sum of a parameter and of a name that the caller binds otherwise, from outside
of all calls and from within three, within different limits and with different numbers. -/
theorem call_apart_from_caller_shadowed :
  let heap := (((Heap.empty.create none).2.set 0 "x" (.int 1)).create (some 0)).2.set 1 "x" (.int 2)
  let sum : Expr := .binary none (.ident none "x") .add (.ident none "y")
  let c : Closure := ⟨0, ["y"], .block none [.ret none (.array none [sum])], 0⟩
  let m : Machine := ⟨heap, 0, 0, 1, "", #[]⟩
  let m' : Machine := ⟨heap, 1, 3, 4, "text", #[.parsed 1]⟩
  (∃ m₁ m₁', (invoke (statement 6) c [.int 5]).run m = .ok (.array 1 [.int 6]) m₁
      ∧ (invoke (statement 9) c [.int 5]).run m' = .ok (.array 4 [.int 6]) m₁')
    ∧ ∃ r r', (invoke (statement 6) c [.int 5]).run m = withFinal m.resume r
      ∧ (invoke (statement 9) c [.int 5]).run m' = withFinal m'.resume r'
      ∧ ∀ lead, Ends (renumbering 1 4) (Value.Alike (renumbering 1 4)) lead r r'
  := by
  intro heap sum c m m'
  have hm : ∃ m₁, (invoke (statement 6) c [.int 5]).run m = .ok (.array 1 [.int 6]) m₁ :=
    ⟨_, by with_unfolding_all rfl⟩
  have hm' : ∃ m₁, (invoke (statement 9) c [.int 5]).run m' = .ok (.array 4 [.int 6]) m₁ :=
    ⟨_, by with_unfolding_all rfl⟩
  obtain ⟨m₁, hm⟩ := hm
  obtain ⟨m₁', hm'⟩ := hm'
  refine ⟨⟨m₁, m₁', hm, hm'⟩, ?_⟩
  have hcopes : ∀ m₂, (invoke (statement 6) c [.int 5]).run m ≠ .error .exhausted m₂ := by
    rw [hm]
    exact fun _ => nofun
  have hcopes' : ∀ m₂, (invoke (statement 9) c [.int 5]).run m' ≠ .error .exhausted m₂ := by
    rw [hm']
    exact fun _ => nofun
  obtain ⟨r, r', hr, hr', -, hends, -⟩ := @call_apart_from_caller c [.int 5] m m' rfl 6 9
    (.inr ⟨hcopes, hcopes'⟩)
  exact ⟨r, r', hr, hr', hends⟩

end Eval

end ExprScript
