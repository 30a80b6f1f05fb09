import ExprScript.Tree.Text
import ExprScript.Value

/-!
# The text of a value

Data is shown as it would be written in a source text, a function by its parameters and the
canonical text of its body, and a returned value by its content.  As for trees, a value is
shown within a limit on its nesting, the bodies of functions included.
-/

namespace ExprScript

namespace Closure

/-- The text of a function. -/
def text (c : Closure) : String :=
  let body := Stmt.texts c.body.statements
  let head := "fn(" ++ ", ".intercalate c.parameters ++ ") \x7b "
  if body = "" then head ++ "\x7d" else head ++ body ++ " \x7d"

end Closure

mutual

/-- The text of a value. -/
def Value.text : Value → String
  | .int n => Decimal.ofInt n
  | .bool b => if b then "true" else "false"
  | .str s => Escape.quote s
  | .array _ vs => "[" ++ ", ".intercalate (Value.texts vs) ++ "]"
  | .map _ es => "\x7b" ++ ", ".intercalate (Value.entryTexts es) ++ "\x7d"
  | .fn c => c.text
  | .builtin name => "builtin(" ++ name ++ ")"
  | .unit => "()"
  | .returned v => v.text

/-- The texts of a list of values. -/
def Value.texts : List Value → List String
  | [] => []
  | v :: vs => v.text :: Value.texts vs

/-- The texts of the entries of a map. -/
def Value.entryTexts : List (String × Value) → List String
  | [] => []
  | (k, v) :: es => (Escape.quote k ++ ": " ++ v.text) :: Value.entryTexts es

end

/-- What first stands in the way of showing a value within a limit, in the order of its
text. -/
def Value.fault? : Nat → Value → Option RenderFault
  | 0, _ => some .exhausted
  | limit + 1, v =>
    match v with
    | .array _ vs => vs.findSome? (Value.fault? limit)
    | .map _ es => es.findSome? fun e => e.2.fault? limit
    | .fn c => c.body.statements.findSome? (Stmt.fault? limit)
    | .returned v => v.fault? limit
    | .int _ | .bool _ | .str _ | .builtin _ | .unit => none

namespace Value

/-- Shows a value. -/
def render (limit : Nat) (v : Value) : Except RenderFault String :=
  RenderFault.unless (v.fault? limit) v.text

/-- Shows a value for printing: a string as it is, any other value by its text. -/
def printed (limit : Nat) : Value → Except RenderFault String
  | .str s => .ok s
  | v => v.render limit

end Value

end ExprScript
