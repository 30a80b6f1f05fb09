import ExprScript.Pos

/-!
# Syntax trees

A program is a list of statements; statements and expressions are defined together, because
functions and conditionals hold statements.  Every node carries the position where it starts,
if it has one.  A tree need not come from a source text: its operators, numbers and function
bodies are not restricted to those that can be written, and a `bare` node has no form of its
own at all.
-/

namespace ExprScript

/-- The operators with two operands.  An operator under `other` has no meaning. -/
inductive BinaryOp where
  | or | and | eq | ne | lt | gt | le | ge | add | sub | mul | div | rem
  | other (symbol : String)
deriving DecidableEq

namespace BinaryOp

/-- How an operator is written. -/
def symbol : BinaryOp → String
  | .or => "||"
  | .and => "&&"
  | .eq => "=="
  | .ne => "!="
  | .lt => "<"
  | .gt => ">"
  | .le => "<="
  | .ge => ">="
  | .add => "+"
  | .sub => "-"
  | .mul => "*"
  | .div => "/"
  | .rem => "%"
  | .other s => s

/-- The operator written as a given symbol. -/
def ofSymbol : String → BinaryOp
  | "||" => .or
  | "&&" => .and
  | "==" => .eq
  | "!=" => .ne
  | "<" => .lt
  | ">" => .gt
  | "<=" => .le
  | ">=" => .ge
  | "+" => .add
  | "-" => .sub
  | "*" => .mul
  | "/" => .div
  | "%" => .rem
  | s => .other s

end BinaryOp

/-- The operators with one operand.  An operator under `other` has no meaning. -/
inductive UnaryOp where
  | not | neg
  | other (symbol : String)
deriving DecidableEq

namespace UnaryOp

/-- How an operator is written. -/
def symbol : UnaryOp → String
  | .not => "!"
  | .neg => "-"
  | .other s => s

/-- The operator written as a given symbol. -/
def ofSymbol : String → UnaryOp
  | "!" => .not
  | "-" => .neg
  | s => .other s

end UnaryOp

mutual

/-- An expression. -/
inductive Expr where
  | ident (pos : Option Pos) (name : String)
  | int (pos : Option Pos) (value : Int)
  | bool (pos : Option Pos) (value : Bool)
  | str (pos : Option Pos) (value : String)
  | array (pos : Option Pos) (elements : List Expr)
  | map (pos : Option Pos) (entries : List (String × Expr))
  | binary (pos : Option Pos) (left : Expr) (op : BinaryOp) (right : Expr)
  | unary (pos : Option Pos) (op : UnaryOp) (operand : Expr)
  | index (pos : Option Pos) (collection position : Expr)
  | group (pos : Option Pos) (inner : Expr)
  | call (pos : Option Pos) (callee : Expr) (arguments : List Expr)
  | cond (pos : Option Pos) (condition : Expr) (consequence : Stmt) (alternative : Option Stmt)
  | fn (pos : Option Pos) (parameters : List String) (body : Stmt)
  | bare (pos : Option Pos)

/-- A statement. -/
inductive Stmt where
  | bind (pos : Option Pos) (name : String) (value : Expr)
  | ret (pos : Option Pos) (value : Expr)
  | expr (pos : Option Pos) (value : Expr)
  | block (pos : Option Pos) (body : List Stmt)
  | bare (pos : Option Pos)

end

/-- Where an expression starts. -/
def Expr.pos : Expr → Option Pos
  | .ident p _ | .int p _ | .bool p _ | .str p _ | .array p _ | .map p _ | .binary p _ _ _
  | .unary p _ _ | .index p _ _ | .group p _ | .call p _ _ | .cond p _ _ _ | .fn p _ _
  | .bare p => p

/-- Where a statement starts. -/
def Stmt.pos : Stmt → Option Pos
  | .bind p _ _ | .ret p _ | .expr p _ | .block p _ | .bare p => p

/-- The statements to run for a body: those of a block, or the one statement it is. -/
def Stmt.statements : Stmt → List Stmt
  | .block _ body => body
  | s => [s]

/-- A program. -/
structure Program where
  statements : List Stmt

/-- The two sorts of nodes. -/
inductive NodeSort where
  | statement
  | expression
deriving DecidableEq

end ExprScript
