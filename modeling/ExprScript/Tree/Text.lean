import ExprScript.Text.Escape
import ExprScript.Tree

/-!
# The canonical text of a tree

The canonical text puts parentheses around every binary, unary and index expression and
leaves out the grouping of the source, so it shows how the operators were grouped.  Bare
nodes have no text.  A tree is rendered within a limit on its height; `render` refuses a tree
that is higher or that holds a bare node, whichever shows first from left to right, and gives
the canonical text of any other.
-/

namespace ExprScript

/-! ### Text -/

mutual

/-- The canonical text of an expression. -/
def Expr.text : Expr → String
  | .ident _ name => name
  | .int _ n => Decimal.ofInt n
  | .bool _ b => if b then "true" else "false"
  | .str _ s => Escape.quote s
  | .array _ es => "[" ++ ", ".intercalate (Expr.texts es) ++ "]"
  | .map _ es => "\x7b" ++ ", ".intercalate (Expr.entryTexts es) ++ "\x7d"
  | .binary _ l op r => "(" ++ l.text ++ " " ++ op.symbol ++ " " ++ r.text ++ ")"
  | .unary _ op e => "(" ++ op.symbol ++ e.text ++ ")"
  | .index _ c i => "(" ++ c.text ++ "[" ++ i.text ++ "])"
  | .group _ e => e.text
  | .call _ f args => f.text ++ "(" ++ ", ".intercalate (Expr.texts args) ++ ")"
  | .cond _ c yes no => "if " ++ c.text ++ " " ++ yes.text ++ Stmt.elseText no
  | .fn _ params body => "fn(" ++ ", ".intercalate params ++ ") " ++ body.text
  | .bare _ => ""

/-- The canonical texts of a list of expressions. -/
def Expr.texts : List Expr → List String
  | [] => []
  | e :: es => e.text :: Expr.texts es

/-- The canonical texts of the entries of a map. -/
def Expr.entryTexts : List (String × Expr) → List String
  | [] => []
  | (k, e) :: es => (Escape.quote k ++ ": " ++ e.text) :: Expr.entryTexts es

/-- The canonical text of a statement. -/
def Stmt.text : Stmt → String
  | .bind _ name e => "let " ++ name ++ " = " ++ e.text ++ ";"
  | .ret _ e => "return " ++ e.text ++ ";"
  | .expr _ e => e.text
  | .block _ body => "\x7b" ++ Stmt.texts body ++ "\x7d"
  | .bare _ => ""

/-- The canonical texts of a list of statements, one after the other. -/
def Stmt.texts : List Stmt → String
  | [] => ""
  | s :: ss => s.text ++ Stmt.texts ss

/-- The canonical text of the branch after `else`, if there is one. -/
def Stmt.elseText : Option Stmt → String
  | none => ""
  | some s => " else " ++ s.text

end

/-! ### Rendering within a limit -/

/-- Why a text cannot be given. -/
inductive RenderFault where
  /-- What is to be shown is nested beyond the limit. -/
  | exhausted
  /-- There is a bare node of the given sort. -/
  | unhandled (sort : NodeSort)
deriving DecidableEq

/-- A text, unless something stands in its way. -/
@[macro_inline]
def RenderFault.unless (fault : Option RenderFault) (text : String) :
    Except RenderFault String :=
  match fault with
  | some e => .error e
  | none => .ok text

mutual

/-- What first stands in the way of rendering an expression within a limit, in the order of its
text. -/
def Expr.fault? : Nat → Expr → Option RenderFault
  | 0, _ => some .exhausted
  | limit + 1, e =>
    match e with
    | .ident _ _ | .int _ _ | .bool _ _ | .str _ _ => none
    | .array _ es => es.findSome? (Expr.fault? limit)
    | .map _ es => es.findSome? fun p => p.2.fault? limit
    | .binary _ l _ r => (l.fault? limit).or (r.fault? limit)
    | .unary _ _ e => e.fault? limit
    | .index _ c i => (c.fault? limit).or (i.fault? limit)
    | .group _ e => e.fault? limit
    | .call _ f args => (f.fault? limit).or (args.findSome? (Expr.fault? limit))
    | .cond _ c yes no =>
      (c.fault? limit).or ((yes.fault? limit).or (no.bind (Stmt.fault? limit)))
    | .fn _ _ body => body.fault? limit
    | .bare _ => some (.unhandled .expression)

/-- What first stands in the way of rendering a statement within a limit, in the order of its
text. -/
def Stmt.fault? : Nat → Stmt → Option RenderFault
  | 0, _ => some .exhausted
  | limit + 1, s =>
    match s with
    | .bind _ _ e | .ret _ e | .expr _ e => e.fault? limit
    | .block _ body => body.findSome? (Stmt.fault? limit)
    | .bare _ => some (.unhandled .statement)

end

/-- Renders an expression. -/
def Expr.render (limit : Nat) (e : Expr) : Except RenderFault String :=
  RenderFault.unless (e.fault? limit) e.text

/-- Renders a statement. -/
def Stmt.render (limit : Nat) (s : Stmt) : Except RenderFault String :=
  RenderFault.unless (s.fault? limit) s.text

namespace Program

/-- The canonical text of a program. -/
def text (p : Program) : String := Stmt.texts p.statements

/-- Renders a program. -/
def render (limit : Nat) (p : Program) : Except RenderFault String :=
  RenderFault.unless (p.statements.findSome? (Stmt.fault? limit)) p.text

end Program

end ExprScript
