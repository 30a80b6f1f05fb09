import ExprScript.Proofs.Eval.Frame
import ExprScript.Proofs.Session.Step

/-!
# Scopes in the course of a session

Wherever a session has come to, evaluating a part of a program that was read leaves the bindings
of all existing scopes as they are.  Only a statement that binds a name changes the current scope,
and there only the name.  So a program that fails leaves the bindings of the statements before the
one that failed, and a source text that is refused leaves everything unchanged.
-/

namespace ExprScript

/-- The scopes there were have the bindings that they had. -/
def Machine.Keeps (m m' : Machine) : Prop :=
  ∀ i, i < m.heap.size → m'.heap.bindings i = m.heap.bindings i

/-- Whether evaluating a node may bind a name in the current scope. -/
def Node.binds : Node → Bool
  | .stmt s => s.isBind
  | .expr _ => false

namespace Eval

open Stateful

/-! ### Statements that bind a name -/

/-- A name is bound after its value is found, unless the value is on its way out of a call. -/
theorem run_bind (limit : Nat) (pos : Option Pos) (name : String) (e : Expr) (m : Machine) :
  (statement (limit + 1) (.bind pos name e)).run m
    = match (expression limit e).run m with
      | .ok v m' => if v.isReturned then .ok v m' else .ok .unit (m'.define name v)
      | .error f m' => .error f m'
  := by
  rw [statement, EStateM.run_bind]
  cases (expression limit e).run m with
  | error f m' => rfl
  | ok v m' =>
      cases hv : v.isReturned with
      | true => simp [proceed, hv]
      | false =>
          simp only [proceed, hv, Bool.false_eq_true, if_false]
          rfl

/-- Of the bindings there were, evaluation changed at most one name in the current scope. -/
structure BindsOnly (name : String) (m m' : Machine) : Prop where
  others : ∀ i, i < m.heap.size → i ≠ m.cursor → m'.heap.bindings i = m.heap.bindings i
  current : m'.heap.bindings m.cursor = m.heap.bindings m.cursor
    ∨ ∃ v, m'.heap.bindings m.cursor = Dict.set (m.heap.bindings m.cursor) name v

theorem Frame.keeps {m m' : Machine} (h : Framed m m') :
  m.Keeps m'
  := fun _ hi => h.heap.bindings hi (Option.some_ne_none _).symm

theorem bindsOnly_of_keeps {name : String} {m m' : Machine} (hm : Scoped m) (h : m.Keeps m') :
  BindsOnly name m m'
  := ⟨fun i hi _ => h i hi, .inl (h m.cursor hm)⟩

theorem bindsOnly_define {name : String} {m m' : Machine} {v : Value} (hm : Scoped m)
    (h : Framed m m') :
  BindsOnly name m (m'.define name v)
  := by
  have hcursor := h.stays.1
  have hkeeps := h.keeps
  have hscoped : m'.cursor < m'.heap.size := by
    rw [hcursor]
    apply Nat.lt_of_lt_of_le hm h.heap.size
  constructor
  · intro i hi hne
    rw [Machine.define, Heap.bindings_set, if_neg, hkeeps i hi]
    rintro ⟨rfl, _⟩
    apply hne hcursor
  · refine .inr ⟨v, ?_⟩
    rw [Machine.define, Heap.bindings_set, if_pos ⟨hcursor.symm, hscoped⟩, hcursor,
      hkeeps m.cursor hm]

/-! ### Parts of programs that were read -/

/-- The states that the law of unchanged scopes is about. -/
abbrev Ordered : Machine → Prop := Sound (fun _ => Value.OfParsed) Scoped

variable {m : Machine} {limit : Nat}

/-- A node that binds no name leaves all scopes unchanged. -/
theorem framed_node {n : Node} (hm : Ordered m) (hn : n.Parsed) (hbinds : n.binds = false) :
  Framed m (final ((node limit n).run m))
  := by
  cases n with
  | expr e => apply ((frame_law.obeys limit).expression hm hn).related
  | stmt s => apply ((frame_law.obeys limit).unbinding hm hn hbinds).related

theorem framed_value {pos : Option Pos} {name : String} {e : Expr} (hm : Ordered m)
    (he : (Node.stmt (.bind pos name e)).Parsed) :
  Framed m (final ((expression limit e).run m))
  := framed_node (n := .expr e) hm (he.within (Node.within_of_part List.mem_cons_self)) rfl

/-- A statement that binds a name changes at most that name, in the current scope. -/
theorem bindsOnly_bind {pos : Option Pos} {name : String} {e : Expr} (hm : Ordered m)
    (he : (Node.stmt (.bind pos name e)).Parsed) :
  BindsOnly name m (final ((statement limit (.bind pos name e)).run m))
  := by
  cases limit with
  | zero =>
      rw [statement]
      apply bindsOnly_of_keeps hm.state
      exact fun _ _ => rfl
  | succ limit =>
      have hvalue : Framed m (final ((expression limit e).run m)) := framed_value hm he
      rw [run_bind]
      cases hrun : (expression limit e).run m with
      | error f m' =>
          rw [hrun] at hvalue
          apply bindsOnly_of_keeps hm.state hvalue.keeps
      | ok v m' =>
          rw [hrun] at hvalue
          dsimp only
          split
          · apply bindsOnly_of_keeps hm.state hvalue.keeps
          · apply bindsOnly_define hm.state hvalue

/-- Nothing is bound if the value fails or is on its way out of a call. -/
theorem keeps_bind {pos : Option Pos} {name : String} {e : Expr} (hm : Ordered m)
    (he : (Node.stmt (.bind pos name e)).Parsed)
    (hv : ∀ v m', (expression limit e).run m = .ok v m' → v.isReturned = true) :
  m.Keeps (final ((statement (limit + 1) (.bind pos name e)).run m))
  := by
  have hvalue : Framed m (final ((expression limit e).run m)) := framed_value hm he
  rw [run_bind]
  cases hrun : (expression limit e).run m with
  | error f m' =>
      rw [hrun] at hvalue
      apply hvalue.keeps
  | ok v m' =>
      rw [hrun] at hvalue
      simp only [hv v m' hrun, if_true]
      apply hvalue.keeps

/-- A statement that fails leaves all scopes unchanged. -/
theorem keeps_of_error {s : Stmt} {f : Fault} {m' : Machine} (hm : Ordered m)
    (hs : (Node.stmt s).Parsed) (h : (statement limit s).run m = .error f m') :
  m.Keeps m'
  := by
  cases hbinds : s.isBind with
  | false =>
      have hframed : Framed m (final ((node limit (.stmt s)).run m)) := framed_node hm hs hbinds
      rw [node, h] at hframed
      apply hframed.keeps
  | true =>
      cases s with
      | bind pos name e =>
          cases limit with
          | zero =>
              rw [statement] at h
              cases h
              exact fun _ _ => rfl
          | succ limit =>
              have hv : ∀ v m₁, (expression limit e).run m = .ok v m₁ → v.isReturned = true := by
                intro v m₁ hrun
                rw [run_bind, hrun] at h
                dsimp only at h
                split at h <;> cases h
              have hkeeps := keeps_bind hm hs hv
              rw [h] at hkeeps
              apply hkeeps
      | _ => cases hbinds

/-! ### Programs that fail -/

/-- A program fails with one of its statements, after those before it. -/
theorem run_statements_eq_error {ss : List Stmt} {f : Fault} {m' : Machine}
    (h : (statements limit ss).run m = .error f m') :
  ∃ before s after vs m₁, ss = before ++ s :: after
    ∧ (statements limit before).run m = .ok vs m₁
    ∧ (statement limit s).run m₁ = .error f m'
  := by
  induction ss generalizing m with
  | nil => cases h
  | cons s ss ih =>
      rw [statements, run_bind_eq_error] at h
      rcases h with h | ⟨v, m₁, hs, h⟩
      · exact ⟨[], s, ss, [], m, rfl, rfl, h⟩
      · rw [run_bind_eq_error] at h
        rcases h with h | ⟨vs, m₂, _, h⟩
        · obtain ⟨before, s', after, vs, m₂, rfl, hbefore, hs'⟩ := ih h
          refine ⟨s :: before, s', after, v :: vs, m₂, rfl, ?_, hs'⟩
          rw [statements, run_bind_of_ok hs, run_bind_of_ok hbefore]
          rfl
        · cases h

end Eval

namespace Session

open Stateful Eval

theorem ordered_reached {m : Machine} (h : Reached m) :
  Ordered m
  := by
  apply frame_law.sound_reached Program.Parsed.statements _ h
  apply Nat.one_pos

/-- What a failure leaves: the state before, if the pending source text was not read, and
otherwise the root bindings that the statements before the one that failed have left. -/
inductive Leaves (limit : Nat) (s : Session) (f : Fault) (m' : Machine) : Prop
  | unread {e rest} : (Reader.program limit).run s.pending = .error e rest → f = .ofRead e →
      m' = s.machine → Leaves limit s f m'
  | failed {p rest before st after vs m} : (Reader.program limit).run s.pending = .ok p rest →
      p.statements = before ++ st :: after → f.isRead = false →
      (statements limit before).run (s.record (.parsed p.statements.length)).machine
        = .ok vs m →
      (statement limit st).run m = .error f m' →
      m'.heap.bindings Machine.root = m.heap.bindings Machine.root → Leaves limit s f m'

theorem leaves_of_error {s : Session} (hs : Rests (fun _ => Value.OfParsed) Scoped s)
    {limit : Nat} {f : Fault} {s' : Session} (h : s.evaluate limit = (.error f, s')) :
  Leaves limit s f s'.machine
  := by
  have hevaluated := evaluated limit s
  rw [h] at hevaluated
  cases hevaluated with
  | unread hread => exact .unread hread rfl rfl
  | @failed p rest _ m' hread hrun =>
      have hp : p.Parsed := ⟨limit, s.pending, rest, hs.pending, hread⟩
      have hm₀ : Ordered (s.record (.parsed p.statements.length)).machine :=
        (frame_law.rests_quiet hs).sound
      obtain ⟨before, st, after, vs, m, hss, hbefore, hst⟩ := run_statements_eq_error hrun
      have hmem : ∀ s' ∈ before ++ [st], (Node.stmt s').Parsed := by
        intro s' hs'
        apply hp.statements
        rw [hss]
        simp only [List.mem_append, List.mem_cons, List.not_mem_nil, or_false] at hs' ⊢
        rcases hs' with hs' | rfl <;> simp [*]
      have hmeets : Meets (fun e => e.isRead = false) Ordered FramedAround _
          (statements limit before) (s.record (.parsed p.statements.length)).machine :=
        frame_law.meets_statements hm₀ fun s' hs' => hmem s' (List.mem_append_left _ hs')
      obtain ⟨hm, hframed, _⟩ := hmeets.of_ok hbefore
      have hparsed : (Node.stmt st).Parsed :=
        hmem st (List.mem_append_right _ List.mem_cons_self)
      have hfault : f.isRead = false :=
        ((frame_law.obeys limit).statement hm hparsed).fault hst
      have hkeeps : m.Keeps m' := keeps_of_error hm hparsed hst
      refine .failed hread hss hfault hbefore hst (hkeeps _ ?_)
      -- The root scope is the current one.
      have hroot : m.cursor = Machine.root := hframed.stays.1.trans hs.cursor
      rw [← hroot]
      apply hm.state

/-- Scopes are changed by the statements that bind a name in them only.  In every state that a
session comes to, and for every part of a program that was read: a part that binds no name leaves
the bindings of all existing scopes as they are, however its evaluation ends; one that binds a name
changes at most that name in the current scope, and nothing if the value fails or is on its way
out of a call.  After a failure the root bindings are those of the statements before, and a source
text that is not read changes no state at all. -/
theorem bindings_change_by_binding :
  (∀ m, Reached m → ∀ limit n, n.Parsed → n.binds = false →
      m.Keeps (final ((node limit n).run m)))
    ∧ (∀ m, Reached m → ∀ limit pos name e, (Node.stmt (.bind pos name e)).Parsed →
      BindsOnly name m (final ((statement limit (.bind pos name e)).run m))
        ∧ ((∀ v m', (expression limit e).run m = .ok v m' → v.isReturned = true) →
          m.Keeps (final ((statement (limit + 1) (.bind pos name e)).run m))))
    ∧ ∀ source steps limit f s',
      ((start source).after steps).evaluate limit = (.error f, s') →
      Leaves limit ((start source).after steps) f s'.machine
  := by
  refine ⟨?_, ?_, ?_⟩
  · intro m hreached limit n hn hbinds
    apply (framed_node (ordered_reached hreached) hn hbinds).keeps
  · intro m hreached limit pos name e hn
    have hm := ordered_reached hreached
    exact ⟨bindsOnly_bind hm hn, keeps_bind hm hn⟩
  · intro source steps limit f s' h
    apply leaves_of_error _ h
    apply frame_law.rests_after Program.Parsed.statements Nat.one_pos

/-- A block that binds a name which the root scope binds too leaves the root scope unchanged. -/
theorem bindings_change_by_binding_block :
  ∃ st, Program.read 20 "\x7b let x = 2; y \x7d" = .ok ⟨[st]⟩
    ∧ ((start "let x = 1;").after [.evaluate 20]).machine.Keeps
        (final ((statement 20 st).run ((start "let x = 1;").after [.evaluate 20]).machine))
  := by
  have hread : ∃ st, Program.read 20 "\x7b let x = 2; y \x7d" = .ok ⟨[st]⟩ ∧ st.isBind = false :=
    ⟨_, by with_unfolding_all rfl, rfl⟩
  obtain ⟨st, hread, hst⟩ := hread
  have hparsed : (Node.stmt st).Parsed :=
    (Program.parsed_of_read hread).statements st List.mem_cons_self
  exact ⟨st, hread,
    bindings_change_by_binding.1 _ (.rest "let x = 1;" [.evaluate 20]) 20 _ hparsed hst⟩

end Session

end ExprScript
