import ExprScript.Proofs.RoundTrip
import ExprScript.Proofs.Tree.Shown

/-!
# Rendering a rendered operation

Operations are the expressions made of names, literals, arrays, grouping, operators, indexing and
calls.  The canonical text of an operation in which no operator is applied to a call is rendered
as itself.  With an operator applied to a call it is not: the operator binds tighter than the
call, and the text has no parentheses around the call.
-/

namespace ExprScript

mutual

/-- Whether an expression is an operation. -/
@[simp]
def Expr.isOperation : Expr → Bool
  | .ident _ _ | .int _ _ | .bool _ _ | .str _ _ => true
  | .array _ es => Expr.areOperations es
  | .binary _ l _ r => l.isOperation && r.isOperation
  | .unary _ _ e => e.isOperation
  | .index _ c i => c.isOperation && i.isOperation
  | .group _ e => e.isOperation
  | .call _ f args => f.isOperation && Expr.areOperations args
  | .map _ _ | .cond _ _ _ _ | .fn _ _ _ | .bare _ => false

/-- Whether all expressions of a list are operations. -/
@[simp]
def Expr.areOperations : List Expr → Bool
  | [] => true
  | e :: es => e.isOperation && Expr.areOperations es

end

/-- The text of an operation does not start with a map. -/
theorem Expr.opensMap_of_isOperation {e : Expr} (h : e.isOperation = true) :
  e.opensMap = false
  := by
  fun_induction Expr.opensMap e with
  | case1 => cases h
  | case2 p e ih => apply ih h
  | case3 p f args ih =>
      simp only [Expr.isOperation, Bool.and_eq_true] at h
      apply ih h.1
  | case4 => rfl

namespace Program

open Grammar

/-- Rendering an operation, reading the text and rendering again gives the same text, if the
operation is legible: if no operator in it is applied to a call. -/
theorem render_of_rendered {source : String} {limit : Nat} {pos : Option Pos} {e : Expr}
    (h : read limit source = .ok ⟨[.expr pos e]⟩) (he : e.isOperation = true)
    (hl : e.legible = true) :
  ∃ n q, ∀ limit, n ≤ limit →
    render limit ⟨[.expr pos e]⟩ = .ok e.text ∧ read limit e.text = .ok q
      ∧ q.render limit = .ok e.text
  := by
  have hp : Program.legible ⟨[.expr pos e]⟩ = true := by
    simp [Program.legible, Stmt.precedes, Expr.opensMap_of_isOperation he, hl]
  have htext : Program.text ⟨[.expr pos e]⟩ = e.text := by
    simp [Program.text, Stmt.texts, Stmt.text]
  have hd := derives_of_read h
  obtain ⟨q, hq, hbones⟩ := derives_text hd hp
  -- What was read back differs in grouping and positions, and neither is shown.
  have hshown : q.text = e.text := by
    rw [← htext, ← q.text_recast (fun _ => none) false, hbones, Program.text_recast]
  rw [htext] at hq
  refine ⟨3 * (tokensOf e.text).length + (tokensOf source).length + 1, q, ?_⟩
  intro limit hlimit
  rw [← htext, render_of_derives hd (by omega), htext, ← hshown,
    render_of_derives hq (by omega), hshown]
  exact ⟨rfl, read_of_derives hq (by omega), rfl⟩

/-- Operators in front of names, groups and elements, and a call of a group. -/
theorem render_of_rendered_group :
  ∃ pos e, read 40 "-(a) * f((x), !b)[1] == (g)([2])" = .ok ⟨[.expr pos e]⟩
    ∧ ∃ n q, ∀ limit, n ≤ limit →
        render limit ⟨[.expr pos e]⟩ = .ok e.text ∧ read limit e.text = .ok q
          ∧ q.render limit = .ok e.text
  := by
  have h : ∃ pos e, read 40 "-(a) * f((x), !b)[1] == (g)([2])" = .ok ⟨[.expr pos e]⟩
      ∧ e.isOperation = true ∧ e.legible = true :=
    ⟨_, _, by with_unfolding_all rfl, rfl, rfl⟩
  obtain ⟨pos, e, hr, he, hl⟩ := h
  exact ⟨pos, e, hr, render_of_rendered hr he hl⟩

/-- An operator in front of a call is rendered without parentheses around the call, and then
stands in front of what is called. -/
theorem render_of_rendered_call :
  ∃ pos e q, read 20 "-(f(x))" = .ok ⟨[.expr pos e]⟩ ∧ e.isOperation = true
    ∧ render 20 ⟨[.expr pos e]⟩ = .ok "(-f(x))" ∧ read 20 "(-f(x))" = .ok q
    ∧ q.render 20 = .ok "(-f)(x)"
  := ⟨_, _, _, by with_unfolding_all rfl, rfl, by with_unfolding_all rfl,
    by with_unfolding_all rfl, by with_unfolding_all rfl⟩

end Program

end ExprScript
