import ExprScript.Eval.Fault
import ExprScript.Scope

/-!
# The state of an evaluation

An evaluation works on a heap of scopes, one of which is the current one, and counts the
calls it is in.  It prints text and keeps a log of what it did.  Entering a scope or a call
changes the current scope or the count only until the work inside is done, whether it ends
with a value or with a fault.
-/

namespace ExprScript

/-- What the log tells of. -/
inductive Event where
  /-- A program of some number of statements was read. -/
  | parsed (statements : Nat)
  /-- A closure was made in a scope. -/
  | created (parameters : List String) (scope : ScopeId)
  /-- A closure was called, as the call of the given depth. -/
  | called (parameters : List String) (depth : Nat)

/-- An event in words, given a label for every scope. -/
def Event.text (label : ScopeId → String) : Event → String
  | .parsed n => "DEBUG jerboa.parse: parsed program with " ++ Decimal.ofNat n ++ " statements"
  | .created parameters scope =>
    "DEBUG jerboa.evaluator: closure created: params=(" ++ ", ".intercalate parameters
      ++ ") env=" ++ label scope
  | .called parameters depth =>
    "DEBUG jerboa.evaluator: call fn(" ++ ", ".intercalate parameters ++ ") depth="
      ++ Decimal.ofNat depth

/-- The state of an evaluation. -/
structure Machine where
  /-- All scopes. -/
  heap : Heap
  /-- The current scope. -/
  cursor : ScopeId
  /-- The number of calls the evaluation is in. -/
  depth : Nat
  /-- The number of arrays, maps and functions made so far, which is the serial number of the
  next one. -/
  made : Serial
  /-- The text printed. -/
  out : String
  /-- What was done, the earliest event first. -/
  log : Array Event

namespace Machine

/-- The outermost scope. -/
def root : ScopeId := 0

/-- The state before anything is evaluated: a root scope without bindings. -/
def start : Machine := ⟨(Heap.empty.create none).2, root, 0, 0, "", #[]⟩

end Machine

/-- An evaluation that yields a result or a fault, and a state in either case. -/
abbrev Eval (α : Type) := EStateM Fault Machine α

namespace Eval

variable {α : Type}

/-- Stops with an error at a position. -/
def fail (cause : EvalCause) (pos : Option Pos) : Eval α := throw (.error ⟨cause, pos⟩)

/-- Goes on with a result, or stops with its cause at a position. -/
def orFail (pos : Option Pos) : Except EvalCause α → Eval α
  | .ok a => pure a
  | .error cause => fail cause pos

/-- Goes on with a text, or stops because it cannot be given. -/
def orRenderFault : Except RenderFault α → Eval α
  | .ok a => pure a
  | .error fault => throw (.ofRender fault)

/-- Prints a text. -/
def print (text : String) : Eval Unit :=
  modify fun m => { m with out := m.out ++ text }

/-- Adds an event to the log. -/
def record (event : Event) : Eval Unit :=
  modify fun m => { m with log := m.log.push event }

/-- The value of a name as seen from the current scope. -/
def lookup? (name : String) : Eval (Option Value) := do
  let m ← get
  return m.heap.get? m.cursor name

/-- Binds a name in the current scope. -/
def define (name : String) (v : Value) : Eval Unit :=
  modify fun m => { m with heap := m.heap.set m.cursor name v }

/-- Makes a scope inside another one, with some bindings. -/
def inside (outer : ScopeId) (bindings : List (String × Value)) : Eval ScopeId :=
  modifyGet fun m =>
    let (id, heap) := m.heap.create (some outer)
    (id, { m with heap := heap.setAll id bindings })

/-- Takes the next serial number. -/
def serial : Eval Serial := modifyGet fun m => (m.made, { m with made := m.made + 1 })

/-- Makes an array. -/
def array (elements : List Value) : Eval Value := return .array (← serial) elements

/-- Makes a map. -/
def map (entries : List (String × Value)) : Eval Value := return .map (← serial) entries

/-- Makes a closure in the current scope. -/
def close (parameters : List String) (body : Stmt) : Eval Value := do
  let scope := (← get).cursor
  record (.created parameters scope)
  return .fn ⟨← serial, parameters, body, scope⟩

/-- Does some work with another scope as the current one, and comes back to the scope before
however the work ends. -/
def within (scope : ScopeId) (work : Eval α) : Eval α := fun m =>
  match work { m with cursor := scope } with
  | .ok a m' => .ok a { m' with cursor := m.cursor }
  | .error e m' => .error e { m' with cursor := m.cursor }

/-- Does some work as one more call, and leaves the call however the work ends. -/
def counted (work : Eval α) : Eval α := fun m =>
  match work { m with depth := m.depth + 1 } with
  | .ok a m' => .ok a { m' with depth := m'.depth - 1 }
  | .error e m' => .error e { m' with depth := m'.depth - 1 }

end Eval

end ExprScript
