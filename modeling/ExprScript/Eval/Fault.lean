import ExprScript.Reader.Basic
import ExprScript.Tree.Text
import ExprScript.Value

/-!
# Failures of evaluation

An evaluation error has a cause and, if the tree gives one, a position.  A source text that
is refused is an evaluation error too, whose text is that of the refusal.  Besides errors an
evaluation can stop because its limit is used up, because a number in the source text is too
long to be read, or because of a node that has no meaning.
-/

namespace ExprScript

/-- The causes of evaluation errors. -/
inductive EvalCause where
  /-- A name is bound nowhere. -/
  | identifier (name : String)
  /-- The condition of a conditional is not a boolean. -/
  | condition (kind : ValueKind)
  /-- An operand of a logical operator is not a boolean. -/
  | logical (op : BinaryOp) (kind : ValueKind)
  /-- The two operands are of different kinds. -/
  | operands (op : BinaryOp) (left right : ValueKind)
  /-- An operator has no meaning for operands of a kind. -/
  | operator (symbol : String) (kind : ValueKind)
  /-- A number is divided by zero. -/
  | divisionByZero
  /-- A remainder by zero is asked for. -/
  | moduloByZero
  /-- What is called is not a function. -/
  | notFunction (description : String)
  /-- A function is called with the wrong number of arguments. -/
  | arity (expected got : Nat) (orMore : Bool)
  /-- An argument is of a kind that a built-in function does not take. -/
  | argument (function : String) (kind : ValueKind)
  /-- A `return` stands outside of every function. -/
  | strayReturn
  /-- A value that has no elements is indexed. -/
  | notIndexable (kind : ValueKind)
  /-- An index is of the wrong kind for the collection. -/
  | indexKind (collection kind : ValueKind)
  /-- An index is not below the length of the array. -/
  | bounds (length : Nat) (index : Int)
  /-- A map does not hold a key. -/
  | missingKey (key : String)
  /-- The source text is refused. -/
  | source (e : SourceError)
deriving DecidableEq

/-- The cause in words. -/
def EvalCause.message : EvalCause → String
  | .identifier name => "identifier not found: '" ++ name ++ "'"
  | .condition kind => "if condition must be a boolean, got " ++ kind.name
  | .logical op kind => "'" ++ op.symbol ++ "' needs boolean operands, got " ++ kind.name
  | .operands op left right =>
    "cannot apply '" ++ op.symbol ++ "' to " ++ left.name ++ " and " ++ right.name
  | .operator symbol kind => "unsupported operator '" ++ symbol ++ "' for " ++ kind.name
  | .divisionByZero => "division by zero"
  | .moduloByZero => "modulo by zero"
  | .notFunction description => "not a function: " ++ description
  | .arity expected got orMore =>
    "wrong number of arguments: expected " ++ (if orMore then "at least " else "")
      ++ Decimal.ofNat expected ++ ", got " ++ Decimal.ofNat got
  | .argument function kind =>
    "argument to '" ++ function ++ "' not supported, got " ++ kind.name
  | .strayReturn => "return outside of a function"
  | .notIndexable kind => "index operator not supported on " ++ kind.name
  | .indexKind collection kind => "cannot index " ++ collection.name ++ " with " ++ kind.name
  | .bounds length index =>
    "index out of bounds: length is " ++ Decimal.ofNat length ++ ", index is "
      ++ Decimal.ofInt index
  | .missingKey key => "key not found: '" ++ key ++ "'"
  | .source e => e.report

/-- An evaluation error. -/
structure EvalError where
  cause : EvalCause
  pos : Option Pos
deriving DecidableEq

namespace EvalError

/-- The error that a refused source text gives rise to. -/
def ofSource (e : SourceError) : EvalError := ⟨.source e, e.pos⟩

/-- The cause in words. -/
def message (e : EvalError) : String := e.cause.message

/-- The cause in words, and where it applies.  The text of a refusal already says where. -/
def report (e : EvalError) : String :=
  match e.cause with
  | .source s => s.report
  | _ => e.message ++ Pos.note e.pos

end EvalError

/-- Why evaluation stopped. -/
inductive Fault where
  /-- An evaluation error. -/
  | error (e : EvalError)
  /-- A number in the source text has more digits than are ever read. -/
  | oversized
  /-- The limit is used up. -/
  | exhausted
  /-- A bare node was to be evaluated. -/
  | unsupported (sort : NodeSort)
  /-- A bare node was to be rendered. -/
  | unhandled (sort : NodeSort)
  /-- There is no built-in function of a name. -/
  | unknownBuiltin (name : String)
deriving DecidableEq

namespace Fault

/-- The fault that a failure to read gives rise to. -/
def ofRead : ReadFailure → Fault
  | .refused e => .error (.ofSource e)
  | .oversized => .oversized
  | .exhausted => .exhausted

/-- The fault that a failure to show something gives rise to. -/
def ofRender : RenderFault → Fault
  | .exhausted => .exhausted
  | .unhandled sort => .unhandled sort

end Fault

namespace NodeSort

/-- What is said of a bare node that is to be evaluated. -/
def unsupported : NodeSort → String
  | .statement => "unsupported statement: Statement"
  | .expression => "unsupported expression: Expression"

/-- What is said of a bare node that is to be rendered. -/
def unhandled : NodeSort → String
  | .statement => "unhandled statement type: Statement"
  | .expression => "unhandled expression type: Expression"

end NodeSort

end ExprScript
