import ExprScript.Eval.Run
import ExprScript.Proofs.Scope
import ExprScript.Proofs.Stateful

/-!
# Entering scopes and calls

A block and a call run their statements in a new scope.  Their runs are those of the statements,
started in the state just inside, with the scope and the depth put back afterwards.
-/

namespace ExprScript

namespace Machine

variable (m : Machine)

/-- The state with a name bound in the current scope. -/
def define (name : String) (v : Value) : Machine :=
  { m with heap := m.heap.set m.cursor name v }

/-- The state with one more event in the log. -/
def record (event : Event) : Machine := { m with log := m.log.push event }

/-- The state just inside a new scope, which lies inside another one and has some bindings, at
some depth. -/
def enter (outer : ScopeId) (bindings : List (String × Value)) (depth : Nat) : Machine :=
  { m with
    heap := (m.heap.create (some outer)).2.setAll m.heap.size bindings
    cursor := m.heap.size
    depth := depth }

/-- The state just inside a call of a closure. -/
def call (c : Closure) (args : List Value) : Machine :=
  (m.record (.called c.parameters (m.depth + 1))).enter c.scope (c.parameters.zip args)
    (m.depth + 1)

/-- The state after some work, outside again: the scope and the depth are those of `m`. -/
def leave (m' : Machine) : Machine := { m' with cursor := m.cursor, depth := m.depth }

theorem leave_of_depth {m' : Machine} (h : m'.depth = m.depth) :
  { m' with cursor := m.cursor } = m.leave m'
  := by
  rw [leave, ← h]

theorem leave_call {m' : Machine} (h : m'.depth = m.depth + 1) :
  { m' with cursor := m.cursor, depth := m'.depth - 1 } = m.leave m'
  := by
  rw [leave, h, Nat.add_sub_cancel]

end Machine

namespace Eval

open Stateful

/-- The current scope and the depth are the same. -/
def Stays (m m' : Machine) : Prop := m'.cursor = m.cursor ∧ m'.depth = m.depth

variable {α : Type} (m : Machine)

theorem run_within (scope : ScopeId) (work : Eval α) :
  (within scope work).run m
    = withFinal (fun m' => { m' with cursor := m.cursor }) (work.run { m with cursor := scope })
  := by
  rw [EStateM.run, within, EStateM.run]
  cases work { m with cursor := scope } <;> rfl

theorem run_counted (work : Eval α) :
  (counted work).run m
    = withFinal (fun m' => { m' with depth := m'.depth - 1 })
        (work.run { m with depth := m.depth + 1 })
  := by
  rw [EStateM.run, counted, EStateM.run]
  cases work { m with depth := m.depth + 1 } <;> rfl

theorem run_counted_within (scope : ScopeId) (work : Eval α) :
  (counted (within scope work)).run m
    = withFinal (fun m' => { m' with cursor := m.cursor, depth := m'.depth - 1 })
        (work.run { m with cursor := scope, depth := m.depth + 1 })
  := by
  rw [run_counted, run_within]
  cases work.run { m with cursor := scope, depth := m.depth + 1 } <;> rfl

theorem run_block (limit : Nat) (pos : Option Pos) (body : List Stmt) :
  (statement (limit + 1) (.block pos body)).run m
    = withFinal (fun m' => { m' with cursor := m.cursor })
        ((runAll (statement limit) .unit body).run (m.enter m.cursor [] m.depth))
  := by
  rw [statement]
  apply run_within

/-- A call yields the content of what its body comes to. -/
theorem run_invoke (run : Stmt → Eval Value) (c : Closure) (args : List Value) :
  (invoke run c args).run m
    = withFinal (fun m' => { m' with cursor := m.cursor, depth := m'.depth - 1 })
        ((runAll run .unit c.body.statements >>= fun v => pure v.content).run (m.call c args))
  := by
  have hcall : (invoke run c args).run m
      = (counted (within m.heap.size (runAll run .unit c.body.statements))
          >>= fun v => pure v.content).run
          { m.call c args with cursor := m.cursor, depth := m.depth } := rfl
  have hbody : (counted (within m.heap.size (runAll run .unit c.body.statements))).run
      { m.call c args with cursor := m.cursor, depth := m.depth }
      = withFinal (fun m' => { m' with cursor := m.cursor, depth := m'.depth - 1 })
          ((runAll run .unit c.body.statements).run (m.call c args)) :=
    run_counted_within _ _ _
  rw [hcall, EStateM.run_bind, EStateM.run_bind, hbody]
  cases (runAll run .unit c.body.statements).run (m.call c args) <;> rfl

end Eval

end ExprScript
