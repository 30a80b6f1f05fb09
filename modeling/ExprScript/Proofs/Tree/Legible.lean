import ExprScript.Tree

/-!
# Trees whose text can be read back

The canonical text leaves out grouping and semicolons after expressions, so it does not always
show where a statement ends or what an operator is applied to.  It does if expressions stand at
the end of their lists of statements and do not start with a map, and if no operator is applied
to a call.  Such trees are legible.
-/

namespace ExprScript

/-- Whether an expression is a call, grouping aside. -/
def Expr.isCall : Expr → Bool
  | .call _ _ _ => true
  | .group _ e => e.isCall
  | _ => false

/-- Whether the text of an expression starts with a map. -/
def Expr.opensMap : Expr → Bool
  | .map _ _ => true
  | .group _ e => e.opensMap
  | .call _ f _ => f.opensMap
  | _ => false

/-- Whether a statement can stand in front of others in a list: an expression only if there are
none and if its text does not start with a map. -/
def Stmt.precedes (ss : List Stmt) : Stmt → Bool
  | .expr _ e => ss.isEmpty && !e.opensMap
  | _ => true

mutual

/-- Whether an expression is legible. -/
@[simp]
def Expr.legible : Expr → Bool
  | .ident _ _ | .int _ _ | .bool _ _ | .str _ _ | .bare _ => true
  | .array _ es => Expr.legibleAll es
  | .map _ es => Expr.legibleEntries es
  | .binary _ l _ r => l.legible && r.legible
  | .unary _ _ e => !e.isCall && e.legible
  | .index _ c i => c.legible && i.legible
  | .group _ e => e.legible
  | .call _ f args => f.legible && Expr.legibleAll args
  | .cond _ c yes no => c.legible && yes.legible && Stmt.legibleElse no
  | .fn _ _ body => body.legible

/-- Whether all expressions of a list are legible. -/
@[simp]
def Expr.legibleAll : List Expr → Bool
  | [] => true
  | e :: es => e.legible && Expr.legibleAll es

/-- Whether all values of a map are legible. -/
@[simp]
def Expr.legibleEntries : List (String × Expr) → Bool
  | [] => true
  | (_, e) :: es => e.legible && Expr.legibleEntries es

/-- Whether a statement is legible. -/
@[simp]
def Stmt.legible : Stmt → Bool
  | .bind _ _ e | .ret _ e | .expr _ e => e.legible
  | .block _ body => Stmt.legibleAll body
  | .bare _ => true

/-- Whether a list of statements is legible. -/
@[simp]
def Stmt.legibleAll : List Stmt → Bool
  | [] => true
  | s :: ss => s.precedes ss && s.legible && Stmt.legibleAll ss

/-- Whether the branch after `else`, if there is one, is legible. -/
@[simp]
def Stmt.legibleElse : Option Stmt → Bool
  | none => true
  | some s => s.legible

end

/-- Whether a program is legible. -/
def Program.legible (p : Program) : Bool := Stmt.legibleAll p.statements

end ExprScript
