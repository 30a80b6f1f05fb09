import ExprScript.Eval.Machine
import ExprScript.Value.Text

/-!
# Built-in functions

The built-in functions measure collections, extend and shorten arrays, and print.
-/

namespace ExprScript

/-- The built-in functions. -/
inductive Builtin where
  | len | append | rest | print | println
deriving DecidableEq

namespace Builtin

/-- The built-in function of a name. -/
def ofName? : String → Option Builtin
  | "len" => some .len
  | "append" => some .append
  | "rest" => some .rest
  | "print" => some .print
  | "println" => some .println
  | _ => none

/-- The number of characters of a string, elements of an array or entries of a map. -/
def length : List Value → Except EvalCause Value
  | [.str s] => .ok (.int s.length)
  | [.array _ vs] => .ok (.int vs.length)
  | [.map _ es] => .ok (.int es.length)
  | [v] => .error (.argument "len" v.kind)
  | args => .error (.arity 1 args.length false)

/-- The elements of an array with further ones at their end. -/
def extended : List Value → Except EvalCause (List Value)
  | .array _ vs :: w :: ws => .ok (vs ++ w :: ws)
  | v :: _ :: _ => .error (.argument "append" v.kind)
  | args => .error (.arity 2 args.length true)

/-- The elements of an array without the first one. -/
def shortened : List Value → Except EvalCause (List Value)
  | [.array _ vs] => .ok vs.tail
  | [v] => .error (.argument "rest" v.kind)
  | args => .error (.arity 1 args.length false)

/-- The texts of values with spaces in between. -/
def line (limit : Nat) (args : List Value) : Except RenderFault String :=
  (" ".intercalate ·) <$> args.mapM (Value.printed limit)

/-- Calls a built-in function at a position. -/
def call (limit : Nat) (pos : Option Pos) (args : List Value) : Builtin → Eval Value
  | .len => Eval.orFail pos (length args)
  | .append => do Eval.array (← Eval.orFail pos (extended args))
  | .rest => do Eval.array (← Eval.orFail pos (shortened args))
  | .print => do
    let text ← Eval.orRenderFault (line limit args)
    Eval.print text
    return .unit
  | .println => do
    let text ← Eval.orRenderFault (line limit args)
    Eval.print (text ++ "\n")
    return .unit

end Builtin

end ExprScript
