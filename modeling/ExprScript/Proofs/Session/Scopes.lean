import ExprScript.Proofs.Eval.Law
import ExprScript.Proofs.Scope.History
import ExprScript.Proofs.Session.Step

/-!
# The scopes of a session

A session works on its scopes by making new ones inside those there are, by storing values and by
looking up names.  So the laws of scopes hold in all its states.  All of its scopes lie in the root
scope, where every lookup that finds nothing before comes to its end.
-/

namespace ExprScript

/-- A closure was made in a scope that exists. -/
def Value.Scoped (h : Heap) : Value → Prop
  | .fn c => c.scope < h.size
  | _ => True

theorem Value.scoped_mono {h h' : Heap} (hsize : h.size ≤ h'.size) {v : Value}
    (hv : v.Scoped h) :
  v.Scoped h'
  := by
  cases v with
  | fn c => apply Nat.lt_of_lt_of_le hv hsize
  | _ => trivial

theorem Value.closed_scoped (h : Heap) :
  Value.Closed (Value.Scoped h)
  where
  unit := trivial
  bool _ := trivial
  str _ := trivial
  builtin _ := trivial
  wrap _ := trivial
  complement _ := trivial
  rem _ _ _ := trivial

namespace Machine

/-- The scopes of the state came about by acts on scopes and lie in the root scope, and the current
one is among them. -/
structure Nested (m : Machine) : Prop where
  history : ∃ acts, Heap.History acts m.heap
  rooted : Heap.Rooted root m.heap
  current : m.cursor < m.heap.size

theorem nested_start :
  Machine.start.Nested
  where
  history := ⟨[.create none], .act (a := .create none) .empty nofun⟩
  rooted := by
    refine ⟨Nat.one_pos, ?_⟩
    intro id hid
    obtain rfl := Nat.lt_one_iff.mp hid
    exact iff_of_true rfl rfl
  current := Nat.one_pos

variable {m m' : Machine}

theorem Nested.becomes (hm : m.Nested) (h : m.heap.Becomes m'.heap)
    (hrooted : Heap.Rooted root m'.heap) (hcurrent : m'.cursor < m'.heap.size) :
  m'.Nested
  := by
  obtain ⟨acts, hacts⟩ := hm.history
  obtain ⟨more, hmore⟩ := h.acts hacts
  exact ⟨⟨_, hmore⟩, hrooted, hcurrent⟩

/-- The new scope lies in the one that was entered from. -/
theorem outer?_enter (outer : ScopeId) (bindings : List (String × Value)) (depth : Nat) :
  (m.enter outer bindings depth).heap.outer? m.heap.size = some outer
  := by
  rw [enter, Heap.outer?_setAll, Heap.outer?_create, if_pos rfl]

theorem size_enter (outer : ScopeId) (bindings : List (String × Value)) (depth : Nat) :
  (m.enter outer bindings depth).heap.size = m.heap.size + 1
  := by
  rw [enter, Heap.size_setAll, Heap.size_create]

end Machine

namespace Eval

open Stateful

/-- The scopes go on by acts on scopes. -/
structure Unfolds (m m' : Machine) : Prop where
  stays : Stays m m'
  becomes : m.heap.Becomes m'.heap

theorem steady_unfolds :
  Steady Value.Scoped Unfolds
  where
  refl m := ⟨⟨rfl, rfl⟩, .refl _⟩
  trans h h' := by
    refine ⟨⟨h'.stays.1.trans h.stays.1, h'.stays.2.trans h.stays.2⟩, ?_⟩
    apply h.becomes.trans h'.becomes
  stable h hv := Value.scoped_mono h.becomes.size hv

/-- The law of scopes, which asks nothing of nodes. -/
theorem scope_law :
  Law (fun _ => True) Value.Scoped Machine.Nested Unfolds Unfolds (fun _ _ => True)
  where
  closed := Value.closed_scoped
  inner := steady_unfolds
  outer := steady_unfolds
  widen h := h
  stays h := h.stays
  length _ := trivial
  child _ _ := trivial
  literal _ := trivial
  close h _ := h.current
  body _ _ := trivial
  branch _ _ := .inr fun h => h
  quiet h _ := ⟨⟨h.history, h.rooted, h.current⟩, ⟨rfl, rfl⟩, .refl _⟩
  define {m name v} h _ := by
    have hbecomes : m.heap.Becomes (m.define name v).heap := Heap.becomes_set h.current name v
    refine ⟨h.becomes hbecomes (h.rooted.set _ _ _) ?_, ⟨rfl, rfl⟩, hbecomes⟩
    apply Nat.lt_of_lt_of_le h.current hbecomes.size
  enter {m outer bindings depth} h houter := by
    have hexists : outer < m.heap.size := by
      rcases houter with rfl | ⟨c, hc, rfl⟩
      · exact h.current
      · exact hc
    have hbecomes : m.heap.Becomes (m.enter outer bindings depth).heap :=
      Heap.becomes_enter hexists bindings
    refine ⟨h.becomes hbecomes ((h.rooted.create outer).setAll _ _) ?_, ?_⟩
    · rw [Machine.size_enter]
      apply Nat.lt_succ_self
    · exact fun v hv => Value.scoped_mono hbecomes.size hv
  leave {m outer bindings depth m'} h hS hm' := by
    -- The scope that was left lies in one that is older than it.
    have hexists : outer < m.heap.size := by
      obtain ⟨acts, hacts⟩ := hm'.history
      apply hacts.older
      rw [hS.becomes.outer, Machine.outer?_enter]
      rw [Machine.size_enter]
      apply Nat.lt_succ_self
    have hbecomes : m.heap.Becomes m'.heap :=
      (Heap.becomes_enter hexists bindings).trans hS.becomes
    refine ⟨⟨hm'.history, hm'.rooted, ?_⟩, ⟨rfl, rfl⟩, hbecomes⟩
    apply Nat.lt_of_lt_of_le h.current hbecomes.size
  error _ := trivial
  exhausted := trivial
  bareExpr _ := trivial
  bareStmt _ := trivial
  stray _ := trivial
  unknown _ _ := trivial
  rendered _ _ := trivial
  printed _ _ := trivial

/-- Whatever is evaluated, however it ends, the scopes go on by acts on scopes. -/
theorem unfolds_node {m : Machine} (hm : Sound Value.Scoped Machine.Nested m) (limit : Nat)
    (n : Node) :
  Unfolds m (final ((node limit n).run m))
  := by
  cases n with
  | expr e => apply ((scope_law.obeys limit).expression hm trivial).related
  | stmt s => apply ((scope_law.obeys limit).statement hm trivial).related

end Eval

namespace Session

open Eval Stateful

theorem sound_of_comes {source : String} {turns : List Turn} {m : Machine}
    (h : Comes (start source) turns m) :
  Sound Value.Scoped Machine.Nested m
  := by
  apply scope_law.regime.sound_comes (rests_start Machine.nested_start source) _ h
  exact fun _ _ _ _ _ _ _ _ _ _ => trivial

/-- Lookup goes from the inside out.  After all acts on scopes, in whatever order, a scope lies in
an older one, a name stands for what was stored last in the nearest scope that has it, and storing
a value is seen only from where its scope is the nearest one with the name.  The scopes of a
session, in all states that it comes to, came about by such acts, and go on by such acts whatever
is evaluated next; its root scope alone lies inside no other, and from every scope the way out ends
there. -/
theorem lookup_from_the_inside_out :
  (∀ acts h, Heap.History acts h → h.Lexical acts)
    ∧ ∀ source turns m, Comes (start source) turns m →
      (∃ acts, Heap.History acts m.heap ∧ m.heap.Lexical acts)
        ∧ (∀ id, id < m.heap.size → (m.heap.outer? id = none ↔ id = Machine.root))
        ∧ (∀ id, id < m.heap.size → (m.heap.chain id).getLast? = some Machine.root)
        ∧ ∀ limit n, m.heap.Becomes (final ((node limit n).run m)).heap
  := by
  refine ⟨fun acts h hh => hh.lexical, ?_⟩
  intro source turns m h
  have hm := sound_of_comes h
  obtain ⟨acts, hacts⟩ := hm.state.history
  have hrooted := hm.state.rooted
  refine ⟨⟨acts, hacts, hacts.lexical⟩, fun id hid => hrooted.unique hid, ?_, ?_⟩
  · intro id hid
    apply hrooted.getLast?_of_outward hacts.older (hacts.lexical.ends id) hid
  · intro limit n
    apply (unfolds_node hm limit n).becomes

/-- A name that is stored in the outer scope after the inner one was made is found from the inner
one, and the scope of a call lies in the root scope. -/
theorem lookup_from_the_inside_out_late :
  (∃ h, Heap.History [.set 0 "y" (.int 7), .create (some 0), .create none] h
      ∧ h.get? 1 "y" = some (.int 7))
    ∧ ∃ m, Comes (start "fn(x) \x7b x \x7d(1)") [.step (.evaluate 20)] m ∧ m.heap.size = 2
      ∧ (m.heap.chain 1).getLast? = some Machine.root
  := by
  constructor
  · have hroot : Heap.History [.create none] _ := .act (a := .create none) .empty nofun
    have hinner : Heap.History [.create (some 0), .create none] _ :=
      .act (a := .create (some 0)) hroot (by rintro _ ⟨⟩; exact Nat.one_pos)
    have hset := Heap.History.act (a := .set 0 "y" (.int 7)) hinner Nat.two_pos
    have hlexical := lookup_from_the_inside_out.1 _ _ hset
    refine ⟨_, hset, hlexical.found.mpr ⟨[1], 0, [], ?_, rfl, ?_⟩⟩
    · rw [Heap.chain]
      apply congrArg (1 :: ·)
      rw [Heap.chain]
      rfl
    · intro j hj
      rw [List.mem_singleton.mp hj]
      rfl
  · have hcomes : Comes (start "fn(x) \x7b x \x7d(1)") [.step (.evaluate 20)] _ := .rest .here
    have hsize : ((start "fn(x) \x7b x \x7d(1)").turn (.step (.evaluate 20))).2.machine.heap.size
        = 2 := by decide +kernel
    refine ⟨_, hcomes, hsize, ?_⟩
    apply (lookup_from_the_inside_out.2 _ _ _ hcomes).2.2.1
    rw [hsize]
    apply Nat.one_lt_two

end Session

end ExprScript
