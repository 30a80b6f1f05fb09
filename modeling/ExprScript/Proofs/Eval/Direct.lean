import ExprScript.Proofs.Eval.Plain

/-!
# Evaluation with a direct exit

The evaluator over plain values only.  There is no value on its way out of a call: a `return`
aborts the evaluation at once, and the nearest call that it is part of yields its value.  The
operations on values and states are those of evaluation, on plain ones.
-/

namespace ExprScript

open Stateful

/-- A plain value. -/
structure Datum where
  val : Value
  plain : val.Plain

/-- A plain state. -/
structure PlainMachine where
  val : Machine
  plain : val.Plain

/-- Why an evaluation is aborted. -/
inductive Exit where
  /-- Something went wrong. -/
  | fault (f : Fault)
  /-- A `return` leaves the nearest call with a value. -/
  | leave (d : Datum)

/-- An evaluation over plain values that a `return` aborts. -/
abbrev Direct (α : Type) := EStateM Exit PlainMachine α

namespace Datum

/-- The unit. -/
def unit : Datum := ⟨.unit, .unit trivial⟩

/-- The values of some data. -/
def values (ds : List Datum) : List Value := ds.map val

theorem plain_values (ds : List Datum) :
  ∀ v ∈ values ds, v.Plain
  := by
  intro v hv
  obtain ⟨d, _, rfl⟩ := List.mem_map.mp hv
  apply d.plain

theorem plain_zip (names : List String) (ds : List Datum) :
  ∀ p ∈ names.zip (values ds), p.2.Plain
  := by
  intro p hp
  apply plain_values ds p.2 (List.of_mem_zip hp).2

end Datum

namespace PlainMachine

/-- The state with a name bound in the current scope. -/
def define (m : PlainMachine) (name : String) (d : Datum) : PlainMachine :=
  ⟨m.val.define name d.val, m.plain.set m.val.cursor name d.plain⟩

/-- The state just inside a new block. -/
def enter (m : PlainMachine) : PlainMachine :=
  ⟨m.val.enter m.val.cursor [] m.val.depth, m.plain.create (some m.val.cursor)⟩

/-- The state just inside a call of a closure. -/
def call (m : PlainMachine) (c : Closure) (args : List Datum) : PlainMachine :=
  ⟨m.val.call c (Datum.values args),
    (m.plain.create (some c.scope)).setAll _ (Datum.plain_zip c.parameters args)⟩

/-- The state after a block, back in the scope of `m`. -/
def leaveBlock (m m' : PlainMachine) : PlainMachine :=
  ⟨{ m'.val with cursor := m.val.cursor }, m'.plain⟩

/-- The state after a call, back in the scope of `m`. -/
def leaveCall (m m' : PlainMachine) : PlainMachine :=
  ⟨{ m'.val with cursor := m.val.cursor, depth := m'.val.depth - 1 }, m'.plain⟩

end PlainMachine

namespace Direct

open Eval (Meets)

variable {α : Type}

/-- An operation of evaluation that keeps states plain and has a plain result. -/
def Keeps (x : Eval Value) : Prop :=
  ∀ m, m.Plain → Meets (fun _ => True) Machine.Plain (fun _ _ => True) (fun _ => Value.Plain) x m

/-- Does an operation on a plain state. -/
def lift (x : Eval Value) (hx : Keeps x) : Direct Datum := fun m =>
  match h : x.run m.val with
  | .ok v m' =>
    .ok ⟨v, (hx m.val m.plain).result h⟩ ⟨m', by
      have hkept := (hx m.val m.plain).kept
      rw [h] at hkept
      exact hkept⟩
  | .error e m' =>
    .error (.fault e) ⟨m', by
      have hkept := (hx m.val m.plain).kept
      rw [h] at hkept
      exact hkept⟩

/-- Stops with an error at a position. -/
def fail (cause : EvalCause) (pos : Option Pos) : Direct α := throw (.fault (.error ⟨cause, pos⟩))

theorem keeps_of_law {x : Eval Value}
    (h : ∀ m, Eval.Sound (fun _ _ => True) (fun _ => True) m →
      Meets (fun _ => True) (Eval.Sound (fun _ _ => True) (fun _ => True)) Eval.Stays
        (fun m' => Eval.Fine (fun _ _ => True) m'.heap) x m) :
  Keeps x
  := by
  intro m hm
  obtain ⟨hkept, _, hresult, _⟩ := h m (Eval.sound_of_plain hm)
  exact ⟨hkept.bound, trivial, hresult, fun _ => trivial⟩

theorem keeps_orFail {r : Except EvalCause Value} (pos : Option Pos)
    (h : ∀ v, r = .ok v → v.Plain) :
  Keeps (Eval.orFail pos r)
  := by
  apply keeps_of_law
  intro m hm
  apply Eval.meets_orFail Eval.plain_law.inner hm h fun _ _ => trivial

/-! ### Operations -/

section

variable (pos : Option Pos)

/-- The value of a name. -/
def name (n : String) : Direct Datum :=
  lift (Eval.name pos n) (keeps_of_law fun _ hm => Eval.plain_law.meets_name hm)

/-- Applies an operator to its one operand. -/
def unary (op : UnaryOp) (d : Datum) : Direct Datum :=
  lift (Eval.orFail pos (Value.unary op d.val))
    (keeps_orFail pos fun _ => Value.every_unary Eval.closed_true d.plain)

/-- Applies an operator to its two operands. -/
def binary (op : BinaryOp) (left right : Datum) : Direct Datum :=
  lift (Eval.orFail pos (Value.binary op left.val right.val))
    (keeps_orFail pos fun _ => Value.every_binary Eval.closed_true left.plain right.plain)

/-- The part of a collection at an index. -/
def index (collection position : Datum) : Direct Datum :=
  lift (Eval.orFail pos (Value.index collection.val position.val))
    (keeps_orFail pos fun _ => Value.every_index collection.plain)

/-- The truth value of an operand of a logical operator. -/
def logical (op : BinaryOp) (d : Datum) : Direct Bool :=
  match d.val with
  | .bool b => return b
  | v => fail (.logical op v.kind) pos

/-- Calls a built-in function. -/
def builtin (limit : Nat) (b : Builtin) (args : List Datum) : Direct Datum :=
  lift (b.call limit pos (Datum.values args))
    (keeps_of_law fun _ hm => Eval.plain_law.meets_builtin b hm (Datum.plain_values args))

end

/-- Makes an array. -/
def array (ds : List Datum) : Direct Datum :=
  lift (Eval.array (Datum.values ds))
    (keeps_of_law fun _ hm => Eval.plain_law.meets_array hm (Datum.plain_values ds))

/-- Makes a map. -/
def map (names : List String) (ds : List Datum) : Direct Datum :=
  lift (Eval.map (names.zip (Datum.values ds)))
    (keeps_of_law fun _ hm => Eval.plain_law.meets_map hm (Datum.plain_zip names ds))

/-- Makes a closure in the current scope. -/
def close (parameters : List String) (body : Stmt) : Direct Datum :=
  lift (Eval.close parameters body)
    (keeps_of_law fun _ hm => Eval.plain_law.meets_close hm trivial)

/-- Binds a name in the current scope. -/
def define (name : String) (d : Datum) : Direct Unit := modify fun m => m.define name d

/-! ### The evaluator -/

/-- Runs statements one after the other.  The result is the value of the last one, or the given
one if there is none. -/
def runAll (run : Stmt → Direct Datum) : Datum → List Stmt → Direct Datum
  | last, [] => return last
  | _, s :: ss => do runAll run (← run s) ss

/-- Does some work in a new scope, and comes back to the scope before however it ends. -/
def block (work : Direct Datum) : Direct Datum := fun m =>
  withFinal m.leaveBlock (work.run m.enter)

/-- Calls a closure.  The call yields the value of its body, or that of a `return` which left
it. -/
def invoke (run : Stmt → Direct Datum) (c : Closure) (args : List Datum) : Direct Datum :=
  fun m =>
    match (runAll run .unit c.body.statements).run (m.call c args) with
    | .ok d m' => .ok d (m.leaveCall m')
    | .error (.leave d) m' => .ok d (m.leaveCall m')
    | .error (.fault e) m' => .error (.fault e) (m.leaveCall m')

/-- Evaluates a conjunction or a disjunction.  The right operand is evaluated only if the left
one is not `decisive`. -/
def shortCircuit (eval : Expr → Direct Datum) (op : BinaryOp) (decisive : Bool)
    (pos : Option Pos) (left right : Expr) : Direct Datum := do
  let d ← eval left
  let a ← logical pos op d
  if a = decisive then return d
  else
    let d' ← eval right
    let _ ← logical pos op d'
    return d'

mutual

/-- Evaluates a statement. -/
def statement : Nat → Stmt → Direct Datum
  | 0, _ => throw (.fault .exhausted)
  | limit + 1, s =>
    match s with
    | .bind _ n e => do
      define n (← expression limit e)
      return .unit
    | .ret pos e => do
      if (← get).val.depth = 0 then fail .strayReturn pos
      else throw (.leave (← expression limit e))
    | .expr _ e => expression limit e
    | .block _ body => block (runAll (statement limit) .unit body)
    | .bare _ => throw (.fault (.unsupported .statement))

/-- Evaluates an expression. -/
def expression : Nat → Expr → Direct Datum
  | 0, _ => throw (.fault .exhausted)
  | limit + 1, e =>
    match e with
    | .int _ n => return ⟨.int n, .int trivial⟩
    | .bool _ b => return ⟨.bool b, .bool trivial⟩
    | .str _ s => return ⟨.str s, .str trivial⟩
    | .ident pos n => name pos n
    | .group _ inner => expression limit inner
    | .array _ es => do array (← es.mapM (expression limit))
    | .map _ entries => do
      map (entries.map Prod.fst) (← (entries.map Prod.snd).mapM (expression limit))
    | .unary pos op operand => do unary pos op (← expression limit operand)
    | .binary pos left .and right =>
      shortCircuit (expression limit) .and false pos left right
    | .binary pos left .or right =>
      shortCircuit (expression limit) .or true pos left right
    | .binary pos left op right => do
      let d ← expression limit left
      binary pos op d (← expression limit right)
    | .index pos collection position => do
      let d ← expression limit collection
      index pos d (← expression limit position)
    | .cond pos condition consequence alternative => do
      let d ← expression limit condition
      match d.val, alternative with
      | .bool true, _ => statement limit consequence
      | .bool false, some s => statement limit s
      | .bool false, none => return .unit
      | v, _ => fail (.condition v.kind) pos
    | .fn _ parameters body => close parameters body
    | .call pos callee args =>
      match Eval.directBuiltin? callee with
      | some b => do builtin pos limit b (← args.mapM (expression limit))
      | none => do
        let f ← expression limit callee
        match f.val with
        | .fn c =>
          if args.length = c.parameters.length then
            invoke (statement limit) c (← args.mapM (expression limit))
          else fail (.arity c.parameters.length args.length false) pos
        | .builtin n =>
          let ds ← args.mapM (expression limit)
          match Builtin.ofName? n with
          | some b => builtin pos limit b ds
          | none => throw (.fault (.unknownBuiltin n))
        | v =>
          match callee.render limit with
          | .ok text => fail (.notFunction (text ++ " is " ++ v.kind.name)) pos
          | .error e => throw (.fault (.ofRender e))
    | .bare _ => throw (.fault (.unsupported .expression))

end

/-- Evaluates the statements of a program, up to the first exit. -/
def statements (limit : Nat) (ss : List Stmt) : Direct (List Datum) :=
  ss.mapM (statement limit)

end Direct

end ExprScript
