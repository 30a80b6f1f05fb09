import ExprScript.Eval.Builtin
import ExprScript.Eval.Operator

/-!
# Evaluation

Statements and expressions are evaluated within a limit, which every nested evaluation
lowers by one.  The value of a `return` travels outward as a returned value: whatever is
under way hands it on without doing anything more, until the call it leaves takes out its
content.
-/

namespace ExprScript

namespace Eval

/-- Goes on with a value; a returned value is handed on instead. -/
def proceed (v : Value) (next : Value → Eval Value) : Eval Value :=
  if v.isReturned then return v else next v

/-- The values of several expressions, or the returned value that cut them short. -/
inductive Gathered where
  | values (vs : List Value)
  | returned (v : Value)

/-- Evaluates expressions from left to right, up to the first returned value. -/
def gather (eval : Expr → Eval Value) : List Expr → Eval Gathered
  | [] => return .values []
  | e :: es => do
    let v ← eval e
    if v.isReturned then return .returned v
    else
      match ← gather eval es with
      | .values vs => return .values (v :: vs)
      | .returned w => return .returned w

/-- Evaluates expressions from left to right and goes on with their values; a returned value
is handed on instead. -/
def withAll (eval : Expr → Eval Value) (es : List Expr) (next : List Value → Eval Value) :
    Eval Value := do
  match ← gather eval es with
  | .values vs => next vs
  | .returned v => return v

/-- Runs statements one after the other, up to the first returned value.  The result is the
value of the last statement that was run, or the given one if there was none. -/
def runAll (run : Stmt → Eval Value) : Value → List Stmt → Eval Value
  | last, [] => return last
  | _, s :: ss => do
    let v ← run s
    if v.isReturned then return v else runAll run v ss

/-- Calls a closure: binds the arguments in a new scope inside that of the closure, and runs
the body there. -/
def invoke (run : Stmt → Eval Value) (c : Closure) (args : List Value) : Eval Value := do
  let scope ← inside c.scope (c.parameters.zip args)
  record (.called c.parameters ((← get).depth + 1))
  let v ← counted (within scope (runAll run .unit c.body.statements))
  return v.content

/-- The value of an operand of a logical operator. -/
def logical (op : BinaryOp) (pos : Option Pos) (v : Value) : Eval Bool :=
  match v with
  | .bool b => return b
  | _ => fail (.logical op v.kind) pos

/-- Evaluates a conjunction or a disjunction.  The right operand is evaluated only if the
left one is not `decisive`. -/
def shortCircuit (eval : Expr → Eval Value) (op : BinaryOp) (decisive : Bool)
    (pos : Option Pos) (left right : Expr) : Eval Value := do
  proceed (← eval left) fun v => do
    let a ← logical op pos v
    if a = decisive then return v
    else
      proceed (← eval right) fun w => do
        let _ ← logical op pos w
        return w

/-- The value of a name: what it is bound to, or else the built-in function of that name. -/
def name (pos : Option Pos) (n : String) : Eval Value := do
  match ← lookup? n with
  | some v => return v
  | none =>
    match Builtin.ofName? n with
    | some _ => return .builtin n
    | none => fail (.identifier n) pos

/-- The built-in function that a callee names outright, whatever the name is bound to. -/
def directBuiltin? : Expr → Option Builtin
  | .ident _ n => Builtin.ofName? n
  | _ => none

mutual

/-- Evaluates a statement. -/
def statement : Nat → Stmt → Eval Value
  | 0, _ => throw .exhausted
  | limit + 1, s =>
    match s with
    | .bind _ n e => do
      proceed (← expression limit e) fun v => do
        define n v
        return .unit
    | .ret pos e => do
      if (← get).depth = 0 then fail .strayReturn pos
      else
        let v ← expression limit e
        return .returned v.content
    | .expr _ e => expression limit e
    | .block _ body => do
      let scope ← inside (← get).cursor []
      within scope (runAll (statement limit) .unit body)
    | .bare _ => throw (.unsupported .statement)

/-- Evaluates an expression. -/
def expression : Nat → Expr → Eval Value
  | 0, _ => throw .exhausted
  | limit + 1, e =>
    match e with
    | .int _ n => return .int n
    | .bool _ b => return .bool b
    | .str _ s => return .str s
    | .ident pos n => name pos n
    | .group _ inner => expression limit inner
    | .array _ es => withAll (expression limit) es array
    | .map _ entries =>
      withAll (expression limit) (entries.map Prod.snd) fun vs =>
        map ((entries.map Prod.fst).zip vs)
    | .unary pos op operand => do
      proceed (← expression limit operand) fun v => orFail pos (Value.unary op v)
    | .binary pos left .and right =>
      shortCircuit (expression limit) .and false pos left right
    | .binary pos left .or right =>
      shortCircuit (expression limit) .or true pos left right
    | .binary pos left op right => do
      proceed (← expression limit left) fun v => do
        proceed (← expression limit right) fun w => orFail pos (Value.binary op v w)
    | .index pos collection position => do
      proceed (← expression limit collection) fun v => do
        proceed (← expression limit position) fun w => orFail pos (Value.index v w)
    | .cond pos condition consequence alternative => do
      proceed (← expression limit condition) fun v =>
        match v, alternative with
        | .bool true, _ => statement limit consequence
        | .bool false, some s => statement limit s
        | .bool false, none => return .unit
        | v, _ => fail (.condition v.kind) pos
    | .fn _ parameters body => close parameters body
    | .call pos callee args =>
      match directBuiltin? callee with
      | some b => withAll (expression limit) args fun vs => b.call limit pos vs
      | none => do
        proceed (← expression limit callee) fun f =>
          match f with
          | .fn c =>
            if args.length = c.parameters.length then
              withAll (expression limit) args fun vs => invoke (statement limit) c vs
            else fail (.arity c.parameters.length args.length false) pos
          | .builtin n =>
            withAll (expression limit) args fun vs =>
              match Builtin.ofName? n with
              | some b => b.call limit pos vs
              | none => throw (.unknownBuiltin n)
          | v => do
            let text ← orRenderFault (callee.render limit)
            fail (.notFunction (text ++ " is " ++ v.kind.name)) pos
    | .bare _ => throw (.unsupported .expression)

end

/-- Evaluates the statements of a program, up to the first fault. -/
def statements (limit : Nat) : List Stmt → Eval (List Value)
  | [] => return []
  | s :: ss => do
    let v ← statement limit s
    let vs ← statements limit ss
    return v :: vs

end Eval

end ExprScript
