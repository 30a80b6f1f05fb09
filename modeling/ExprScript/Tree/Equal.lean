import ExprScript.Tree
import ExprScript.Verdict

/-!
# Equality of trees

Two trees are equal when they agree node by node, positions aside.  Grouping counts as a
node, and the entries of a map may come in any order.  `same` says so outright; `sameWithin`
compares the parts of a node from left to right and goes only so far down.
-/

namespace ExprScript

mutual

/-- Whether two expressions are equal. -/
def Expr.same : Expr → Expr → Bool
  | .ident _ m, .ident _ n => m = n
  | .int _ m, .int _ n => m = n
  | .bool _ a, .bool _ b => a = b
  | .str _ s, .str _ t => s = t
  | .array _ es, .array _ fs => Expr.sameAll es fs
  | .map _ es, .map _ fs => es.length = fs.length && Expr.sameEntries es fs
  | .binary _ l o r, .binary _ l' o' r' => l.same l' && o = o' && r.same r'
  | .unary _ o e, .unary _ o' e' => o = o' && e.same e'
  | .index _ c i, .index _ c' i' => c.same c' && i.same i'
  | .group _ e, .group _ e' => e.same e'
  | .call _ f as, .call _ f' as' => f.same f' && Expr.sameAll as as'
  | .cond _ c y n, .cond _ c' y' n' => c.same c' && y.same y' && Stmt.sameElse n n'
  | .fn _ ps b, .fn _ ps' b' => ps = ps' && b.same b'
  | .bare _, .bare _ => true
  | _, _ => false

/-- Whether two lists of expressions are equal element by element. -/
def Expr.sameAll : List Expr → List Expr → Bool
  | [], [] => true
  | e :: es, f :: fs => e.same f && Expr.sameAll es fs
  | _, _ => false

/-- Whether every entry of the first map has an equal one under the same key in the second. -/
def Expr.sameEntries : List (String × Expr) → List (String × Expr) → Bool
  | [], _ => true
  | (k, e) :: es, fs =>
    (match Dict.get? fs k with
      | some f => e.same f
      | none => false)
    && Expr.sameEntries es fs

/-- Whether two statements are equal. -/
def Stmt.same : Stmt → Stmt → Bool
  | .bind _ m e, .bind _ n f => m = n && e.same f
  | .ret _ e, .ret _ f => e.same f
  | .expr _ e, .expr _ f => e.same f
  | .block _ ss, .block _ ts => Stmt.sameAll ss ts
  | .bare _, .bare _ => true
  | _, _ => false

/-- Whether two lists of statements are equal element by element. -/
def Stmt.sameAll : List Stmt → List Stmt → Bool
  | [], [] => true
  | s :: ss, t :: ts => s.same t && Stmt.sameAll ss ts
  | _, _ => false

/-- Whether two branches after `else` are equal, or both absent. -/
def Stmt.sameElse : Option Stmt → Option Stmt → Bool
  | none, none => true
  | some s, some t => s.same t
  | _, _ => false

end

/-- Whether two programs are equal. -/
def Program.same (p q : Program) : Bool := Stmt.sameAll p.statements q.statements

/-! ### Comparison within a limit -/

mutual

/-- Compares two expressions within a limit. -/
def Expr.sameWithin : Nat → Expr → Expr → Verdict
  | 0, _, _ => .undecided
  | limit + 1, e, f =>
    match e, f with
    | .array _ es, .array _ fs => Verdict.lists (Expr.sameWithin limit) es fs
    | .map _ es, .map _ fs => Verdict.dicts (Expr.sameWithin limit) es fs
    | .binary _ l o r, .binary _ l' o' r' =>
      Verdict.both (l.sameWithin limit l')
        (Verdict.both (.ofBool (o = o')) (r.sameWithin limit r'))
    | .unary _ o e, .unary _ o' e' =>
      Verdict.both (.ofBool (o = o')) (e.sameWithin limit e')
    | .index _ c i, .index _ c' i' =>
      Verdict.both (c.sameWithin limit c') (i.sameWithin limit i')
    | .group _ e, .group _ e' => e.sameWithin limit e'
    | .call _ f as, .call _ f' as' =>
      Verdict.both (f.sameWithin limit f') (Verdict.lists (Expr.sameWithin limit) as as')
    | .cond _ c y n, .cond _ c' y' n' =>
      Verdict.both (c.sameWithin limit c')
        (Verdict.both (y.sameWithin limit y')
          (Verdict.lists (Stmt.sameWithin limit) n.toList n'.toList))
    | .fn _ ps b, .fn _ ps' b' => Verdict.both (.ofBool (ps = ps')) (b.sameWithin limit b')
    | e, f => .ofBool (e.same f)

/-- Compares two statements within a limit. -/
def Stmt.sameWithin : Nat → Stmt → Stmt → Verdict
  | 0, _, _ => .undecided
  | limit + 1, s, t =>
    match s, t with
    | .bind _ m e, .bind _ n f => Verdict.both (.ofBool (m = n)) (e.sameWithin limit f)
    | .ret _ e, .ret _ f => e.sameWithin limit f
    | .expr _ e, .expr _ f => e.sameWithin limit f
    | .block _ ss, .block _ ts => Verdict.lists (Stmt.sameWithin limit) ss ts
    | s, t => .ofBool (s.same t)

end

/-- Compares two programs within a limit. -/
def Program.sameWithin (limit : Nat) (p q : Program) : Verdict :=
  Verdict.lists (Stmt.sameWithin limit) p.statements q.statements

end ExprScript
