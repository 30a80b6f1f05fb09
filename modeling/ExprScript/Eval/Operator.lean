import ExprScript.Arith
import ExprScript.Dict
import ExprScript.Eval.Fault

/-!
# Operators on values

The operators work on operands that are already values.  Both operands of a binary operator
have to be of one kind: integers can be compared and calculated with, booleans compared, and
strings joined.  Arrays are indexed by integers and maps by strings.
-/

namespace ExprScript.Value

/-- Applies an operator to its one operand. -/
def unary : UnaryOp → Value → Except EvalCause Value
  | .not, .bool b => .ok (.bool !b)
  | .not, .int n => .ok (.int (Arith.complement n))
  | .neg, .int n => .ok (.int (Arith.wrap (-n)))
  | op, v => .error (.operator op.symbol v.kind)

/-- Applies an operator to two integers. -/
def binaryInt (op : BinaryOp) (a b : Int) : Except EvalCause Value :=
  match op.comparison? with
  | some holds => .ok (.bool (holds (compare a b)))
  | none =>
    match op with
    | .add => .ok (.int (Arith.wrap (a + b)))
    | .sub => .ok (.int (Arith.wrap (a - b)))
    | .mul => .ok (.int (Arith.wrap (a * b)))
    | .div =>
      if b = 0 then .error .divisionByZero else .ok (.int (Arith.wrap (Arith.divide a b).1))
    | .rem => if b = 0 then .error .moduloByZero else .ok (.int (Arith.divide a b).2)
    | _ => .error (.operator op.symbol .integer)

/-- Applies an operator to two booleans; `false` is less than `true`. -/
def binaryBool (op : BinaryOp) (a b : Bool) : Except EvalCause Value :=
  match op.comparison? with
  | some holds => .ok (.bool (holds (compare a b)))
  | none => .error (.operator op.symbol .boolean)

/-- Applies an operator to two strings. -/
def binaryStr (op : BinaryOp) (s t : String) : Except EvalCause Value :=
  match op with
  | .add => .ok (.str (s ++ t))
  | _ => .error (.operator op.symbol .string)

/-- Applies an operator to its two operands. -/
def binary (op : BinaryOp) (left right : Value) : Except EvalCause Value :=
  match left, right with
  | .int a, .int b => binaryInt op a b
  | .bool a, .bool b => binaryBool op a b
  | .str s, .str t => binaryStr op s t
  | _, _ =>
    if left.kind = right.kind then .error (.operator op.symbol left.kind)
    else .error (.operands op left.kind right.kind)

/-- The element of an array at a position. -/
def element (elements : List Value) (i : Int) : Except EvalCause Value :=
  if i < 0 then .error (.bounds elements.length i)
  else
    match elements[i.toNat]? with
    | some v => .ok v
    | none => .error (.bounds elements.length i)

/-- The part of a collection at an index. -/
def index : Value → Value → Except EvalCause Value
  | .array _ elements, .int i => element elements i
  | .array _ _, v => .error (.indexKind .array v.kind)
  | .map _ entries, .str k =>
    match Dict.get? entries k with
    | some v => .ok v
    | none => .error (.missingKey k)
  | .map _ _, v => .error (.indexKind .map v.kind)
  | v, _ => .error (.notIndexable v.kind)

end ExprScript.Value
