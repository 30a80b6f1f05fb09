import ExprScript.Proofs.Scope
import ExprScript.Proofs.Stateful
import ExprScript.Eval.Run

/-!
# Evaluation with checks

Evaluation takes some steps for granted: that a comparison is one of six, that two operands have
two values, that an index within bounds has an element, that a divisor is not zero.  Here every
such step is checked, and one that does not work out is a lapse.  Evaluation with checks comes to
the same as evaluation, from any state and for any tree, so there are no lapses.
-/

namespace ExprScript

open Stateful

/-- A step that was taken for granted and did not work out. -/
inductive Lapse where
  /-- An operator that is to compare is no comparison. -/
  | comparison (op : BinaryOp)
  /-- There are not two operands. -/
  | operands (count : Nat)
  /-- An array has no element at an index. -/
  | element (i : Int)
  /-- A map has no value under a key. -/
  | entry (key : String)
  /-- A name is bound nowhere. -/
  | unbound (name : String)
  /-- A number is divided by zero. -/
  | zeroDivisor
  /-- There is no argument at a position. -/
  | argument (i : Nat)

/-- Why an evaluation with checks stopped. -/
inductive Failure where
  | fault (f : Fault)
  | lapse (l : Lapse)

/-- An evaluation with checks. -/
abbrev Checked (α : Type) := EStateM Failure Machine α

/-- Whether an operator is a comparison. -/
def BinaryOp.compares : BinaryOp → Bool
  | .eq | .ne | .lt | .le | .gt | .ge => true
  | _ => false

namespace Checked

variable {α β : Type}

/-- Stops because of a lapse. -/
def lapse (l : Lapse) : Checked α := throw (.lapse l)

/-- Stops with an error at a position. -/
def fail (cause : EvalCause) (pos : Option Pos) : Checked α :=
  throw (.fault (.error ⟨cause, pos⟩))

/-- Does what takes nothing for granted. -/
def lift (x : Eval α) : Checked α := fun m =>
  match x.run m with
  | .ok a m' => .ok a m'
  | .error f m' => .error (.fault f) m'

/-! ### Operations -/

/-- Goes on with the values of two operands. -/
def pair (next : Value → Value → Checked Value) : List Value → Checked Value
  | [v, w] => next v w
  | vs => lapse (.operands vs.length)

/-- Compares two numbers or truth values. -/
def compared [DecidableEq α] [LT α] [DecidableLT α] [LE α] [DecidableLE α] (op : BinaryOp)
    (a b : α) : Checked Bool :=
  match op with
  | .eq => return a = b
  | .ne => return a ≠ b
  | .lt => return a < b
  | .le => return a ≤ b
  | .gt => return a > b
  | .ge => return a ≥ b
  | op => lapse (.comparison op)

/-- Quotient and remainder: the sizes are divided, and the quotient is negative if exactly one of
the numbers is. -/
def quotient (a b : Int) : Checked (Int × Int) :=
  if b.natAbs = 0 then lapse .zeroDivisor
  else
    let size : Int := (a.natAbs / b.natAbs : Nat)
    let q := if decide (a < 0) ≠ decide (b < 0) then -size else size
    return (q, a - q * b)

/-- The element of an array at an index.  An index below zero counts from the end. -/
def element (vs : List Value) (i : Int) : Checked Value :=
  let place := if i < 0 then vs.length + i else i
  match if 0 ≤ place then vs[place.toNat]? else none with
  | some v => return v
  | none => lapse (.element i)

/-- The value of a map under a key. -/
def entry (es : Dict Value) (key : String) : Checked Value :=
  match Dict.get? es key with
  | some v => return v
  | none => lapse (.entry key)

/-- An argument. -/
def argument (args : List Value) (i : Nat) : Checked Value :=
  match args[i]? with
  | some v => return v
  | none => lapse (.argument i)

/-- What a name is bound to. -/
def bound (n : String) : Checked Value := do
  match ← lift (Eval.lookup? n) with
  | some v => return v
  | none => lapse (.unbound n)

/-- The built-in function of a name. -/
def builtin (n : String) : Checked Builtin :=
  match Builtin.ofName? n with
  | some b => return b
  | none => throw (.fault (.unknownBuiltin n))

section

variable (pos : Option Pos)

/-- Goes on where a name is not bound. -/
def unbound (n : String) : Failure → Checked Value
  | .lapse (.unbound _) =>
    if (Builtin.ofName? n).isSome then return .builtin n else fail (.identifier n) pos
  | f => throw f

/-- The value of a name.  That the name is not bound is caught. -/
def name (n : String) : Checked Value := tryCatch (bound n) (unbound pos n)

/-- Applies an operator to its two operands. -/
def binary (op : BinaryOp) (left right : Value) : Checked Value :=
  match left, right with
  | .int a, .int b => do
    if op.compares then return .bool (← compared op a b)
    else
      match op with
      | .add => return .int (Arith.wrap (a + b))
      | .sub => return .int (Arith.wrap (a - b))
      | .mul => return .int (Arith.wrap (a * b))
      | .div =>
        if b = 0 then fail .divisionByZero pos
        else
          let (q, _) ← quotient a b
          return .int (Arith.wrap q)
      | .rem =>
        if b = 0 then fail .moduloByZero pos
        else
          let (_, r) ← quotient a b
          return .int r
      | op => fail (.operator op.symbol .integer) pos
  | .bool a, .bool b => do
    if op.compares then return .bool (← compared op a b)
    else fail (.operator op.symbol .boolean) pos
  | left, right => lift (Eval.orFail pos (Value.binary op left right))

/-- The part of a collection at an index. -/
def index (collection position : Value) : Checked Value :=
  match collection, position with
  | .array _ vs, .int i =>
    if i < 0 ∨ (vs.length : Int) ≤ i then fail (.bounds vs.length i) pos else element vs i
  | .map _ es, .str k =>
    if k ∈ Dict.names es then entry es k else fail (.missingKey k) pos
  | v, w => lift (Eval.orFail pos (Value.index v w))

/-- Calls a built-in function. -/
def call (limit : Nat) (args : List Value) : Builtin → Checked Value
  | .len => do
    if args.length ≠ 1 then fail (.arity 1 args.length false) pos
    else
      match ← argument args 0 with
      | .str s => return .int s.length
      | .array _ vs => return .int vs.length
      | .map _ es => return .int es.length
      | v => fail (.argument "len" v.kind) pos
  | .append => do
    if args.length < 2 then fail (.arity 2 args.length true) pos
    else
      match ← argument args 0 with
      | .array _ vs => lift (Eval.array (vs ++ args.tail))
      | v => fail (.argument "append" v.kind) pos
  | .rest => do
    if args.length ≠ 1 then fail (.arity 1 args.length false) pos
    else
      match ← argument args 0 with
      | .array _ vs => lift (Eval.array vs.tail)
      | v => fail (.argument "rest" v.kind) pos
  | b => lift (b.call limit pos args)

/-- The truth value of an operand of a logical operator. -/
def logical (op : BinaryOp) (v : Value) : Checked Bool := lift (Eval.logical op pos v)

end

/-! ### The evaluator -/

/-- Goes on with a value; a returned value is handed on instead. -/
def proceed (v : Value) (next : Value → Checked Value) : Checked Value :=
  if v.isReturned then return v else next v

/-- Evaluates expressions from left to right, up to the first returned value. -/
def gather (eval : Expr → Checked Value) : List Expr → Checked Eval.Gathered
  | [] => return .values []
  | e :: es => do
    let v ← eval e
    if v.isReturned then return .returned v
    else
      match ← gather eval es with
      | .values vs => return .values (v :: vs)
      | .returned w => return .returned w

/-- Evaluates expressions from left to right and goes on with their values. -/
def withAll (eval : Expr → Checked Value) (es : List Expr) (next : List Value → Checked Value) :
    Checked Value := do
  match ← gather eval es with
  | .values vs => next vs
  | .returned v => return v

/-- Runs statements one after the other, up to the first returned value. -/
def runAll (run : Stmt → Checked Value) : Value → List Stmt → Checked Value
  | last, [] => return last
  | _, s :: ss => do
    let v ← run s
    if v.isReturned then return v else runAll run v ss

/-- Does some work with another scope as the current one. -/
def within (scope : ScopeId) (work : Checked α) : Checked α := fun m =>
  withFinal (fun m' => { m' with cursor := m.cursor }) (work.run { m with cursor := scope })

/-- Does some work as one more call. -/
def counted (work : Checked α) : Checked α := fun m =>
  withFinal (fun m' => { m' with depth := m'.depth - 1 }) (work.run { m with depth := m.depth + 1 })

/-- Calls a closure. -/
def invoke (run : Stmt → Checked Value) (c : Closure) (args : List Value) : Checked Value := do
  let scope ← lift (Eval.inside c.scope (c.parameters.zip args))
  lift (Eval.record (.called c.parameters ((← get).depth + 1)))
  let v ← counted (within scope (runAll run .unit c.body.statements))
  return v.content

/-- Evaluates a conjunction or a disjunction. -/
def shortCircuit (eval : Expr → Checked Value) (op : BinaryOp) (decisive : Bool)
    (pos : Option Pos) (left right : Expr) : Checked Value := do
  proceed (← eval left) fun v => do
    let a ← logical pos op v
    if a = decisive then return v
    else
      proceed (← eval right) fun w => do
        let _ ← logical pos op w
        return w

mutual

/-- Evaluates a statement. -/
def statement : Nat → Stmt → Checked Value
  | 0, _ => throw (.fault .exhausted)
  | limit + 1, s =>
    match s with
    | .bind _ n e => do
      proceed (← expression limit e) fun v => do
        lift (Eval.define n v)
        return .unit
    | .ret pos e => do
      if (← get).depth = 0 then fail .strayReturn pos
      else
        let v ← expression limit e
        return .returned v.content
    | .expr _ e => expression limit e
    | .block _ body => do
      let scope ← lift (Eval.inside (← get).cursor [])
      within scope (runAll (statement limit) .unit body)
    | .bare _ => throw (.fault (.unsupported .statement))

/-- Evaluates an expression. -/
def expression : Nat → Expr → Checked Value
  | 0, _ => throw (.fault .exhausted)
  | limit + 1, e =>
    match e with
    | .int _ n => return .int n
    | .bool _ b => return .bool b
    | .str _ s => return .str s
    | .ident pos n => name pos n
    | .group _ inner => expression limit inner
    | .array _ es => withAll (expression limit) es fun vs => lift (Eval.array vs)
    | .map _ entries =>
      withAll (expression limit) (entries.map Prod.snd) fun vs =>
        lift (Eval.map ((entries.map Prod.fst).zip vs))
    | .unary pos op operand => do
      proceed (← expression limit operand) fun v => lift (Eval.orFail pos (Value.unary op v))
    | .binary pos left .and right =>
      shortCircuit (expression limit) .and false pos left right
    | .binary pos left .or right =>
      shortCircuit (expression limit) .or true pos left right
    | .binary pos left op right =>
      withAll (expression limit) [left, right] (pair (binary pos op))
    | .index pos collection position =>
      withAll (expression limit) [collection, position] (pair (index pos))
    | .cond pos condition consequence alternative => do
      proceed (← expression limit condition) fun v =>
        match v, alternative with
        | .bool true, _ => statement limit consequence
        | .bool false, some s => statement limit s
        | .bool false, none => return .unit
        | v, _ => fail (.condition v.kind) pos
    | .fn _ parameters body => lift (Eval.close parameters body)
    | .call pos callee args =>
      match Eval.directBuiltin? callee with
      | some b => withAll (expression limit) args fun vs => call pos limit vs b
      | none => do
        proceed (← expression limit callee) fun f =>
          match f with
          | .fn c =>
            if args.length = c.parameters.length then
              withAll (expression limit) args fun vs => invoke (statement limit) c vs
            else fail (.arity c.parameters.length args.length false) pos
          | .builtin n =>
            withAll (expression limit) args fun vs => do call pos limit vs (← builtin n)
          | v => do
            let text ← lift (Eval.orRenderFault (callee.render limit))
            fail (.notFunction (text ++ " is " ++ v.kind.name)) pos
    | .bare _ => throw (.fault (.unsupported .expression))

end

/-- Evaluates the statements of a program, up to the first failure. -/
def statements (limit : Nat) : List Stmt → Checked (List Value)
  | [] => return []
  | s :: ss => do
    let v ← statement limit s
    let vs ← statements limit ss
    return v :: vs

end Checked

end ExprScript
