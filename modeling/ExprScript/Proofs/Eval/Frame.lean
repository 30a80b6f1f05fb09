import ExprScript.Proofs.Eval.Law
import ExprScript.Proofs.Grammar.Branch

/-!
# What evaluation leaves unchanged

In programs that were read, the evaluation of an expression changes no scope that existed
before, however it ends: new names are bound in new scopes only.  Of the statements, one that
binds a name changes its current scope, and no other statement changes any.
-/

namespace ExprScript

/-- Whether a fault comes from reading a source text. -/
def Fault.isRead : Fault → Bool
  | .error e => e.cause.isSource
  | .oversized => true
  | _ => false

/-- The body of a closure lies within a program that was read. -/
def Value.OfParsed : Value → Prop
  | .fn c => (Node.stmt c.body).Parsed
  | _ => True

namespace Eval

open Stateful

/-- Scopes are unchanged, and so are the current scope and the depth. -/
structure Frame (free : Machine → Option ScopeId) (m m' : Machine) : Prop where
  stays : Stays m m'
  heap : m.heap.Extends (free m) m'.heap

/-- All scopes are unchanged. -/
abbrev Framed : Machine → Machine → Prop := Frame fun _ => none

/-- All scopes but the current one are unchanged. -/
abbrev FramedAround : Machine → Machine → Prop := Frame fun m => some m.cursor

/-- The current scope exists. -/
def Scoped (m : Machine) : Prop := m.cursor < m.heap.size

theorem steady_frame {V : Heap → Value → Prop} (hV : ∀ h h' v, V h v → V h' v)
    {free : Machine → Option ScopeId} (hfree : ∀ {m m'}, Stays m m' → free m' = free m) :
  Steady V (Frame free)
  where
  refl m := ⟨⟨rfl, rfl⟩, .refl _ _⟩
  trans h h' := by
    refine ⟨⟨h'.stays.1.trans h.stays.1, h'.stays.2.trans h.stays.2⟩, ?_⟩
    have hheap := h'.heap
    rw [hfree h.stays] at hheap
    apply h.heap.trans hheap
  stable _ hv := hV _ _ _ hv

theorem closed_ofParsed :
  Value.Closed Value.OfParsed
  where
  unit := trivial
  bool _ := trivial
  str _ := trivial
  builtin _ := trivial
  wrap _ := trivial
  complement _ := trivial
  rem _ _ _ := trivial

/-- What is done in a new scope changes no scope before it. -/
theorem framed_leave {m m' : Machine} {outer : ScopeId} {bindings : List (String × Value)}
    {depth : Nat} (h : FramedAround (m.enter outer bindings depth) m') :
  Framed m (m.leave m')
  := by
  have hnew : m.heap.Extends none (m.enter outer bindings depth).heap :=
    m.heap.extends_create (some outer) bindings
  refine ⟨⟨rfl, rfl⟩, Nat.le_trans hnew.size h.heap.size, ?_⟩
  intro i hi hfree
  have hcursor : some (m.enter outer bindings depth).cursor ≠ some i := by
    intro he
    cases he
    apply Nat.lt_irrefl _ hi
  rw [← hnew.scopes i hi hfree]
  apply h.heap.scopes i (Nat.lt_of_lt_of_le hi hnew.size) hcursor

/-- The law of unchanged scopes, for programs that were read. -/
theorem frame_law :
  Law (fun e => e.isRead = false) (fun _ => Value.OfParsed) Scoped Framed FramedAround
    (fun _ => Node.Parsed)
  where
  closed _ := closed_ofParsed
  inner := steady_frame (fun _ _ _ hv => hv) fun _ => rfl
  outer := steady_frame (fun _ _ _ hv => hv) fun h => congrArg some h.1
  widen h := ⟨h.stays, h.heap.widen _⟩
  stays h := h.stays
  length _ := trivial
  child h hc := h.within (Node.within_of_part (Node.mem_parts_of_children hc))
  literal _ := trivial
  close _ h := h.within (Node.within_of_part List.mem_cons_self)
  body h hs := Node.Parsed.within h (Node.within_of_statements hs)
  branch h hs := .inl (h.tame.branch hs)
  quiet h _ := ⟨h, ⟨rfl, rfl⟩, .refl _ _⟩
  define {m name v} h _ := by
    refine ⟨?_, ⟨rfl, rfl⟩, m.heap.extends_set m.cursor name v⟩
    rw [Scoped, Machine.define, Heap.size_set]
    apply h
  enter {m outer bindings depth} _ _ := by
    refine ⟨?_, fun _ hv => hv⟩
    rw [Scoped, Machine.enter, Heap.size_setAll, Heap.size_create]
    apply Nat.lt_succ_self
  leave {m outer bindings depth m'} h hS _ := by
    have hframed : Framed m (m.leave m') := framed_leave hS
    exact ⟨Nat.lt_of_lt_of_le h hframed.heap.size, hframed⟩
  error h := EvalCause.isSource_of_isOperation h
  exhausted := rfl
  bareExpr _ := rfl
  bareStmt _ := rfl
  stray _ := rfl
  unknown _ _ := rfl
  rendered {_ _ _ _ _ e} _ _ := by cases e <;> rfl
  printed {_ _ _ e} _ _ := by cases e <;> rfl

end Eval

end ExprScript
