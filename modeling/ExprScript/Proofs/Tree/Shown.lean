import ExprScript.Proofs.Tree.Recast
import ExprScript.Tree.Text

/-!
# What is shown of a recast tree

Neither positions nor grouping are shown, so a tree and a tree that it is recast to have the same
canonical text.  If grouping is kept, then the same stands in the way of rendering them.
-/

namespace ExprScript

/-! ### Texts -/

section

variable (place : Option Pos → Option Pos) (grouped : Bool)

mutual

/-- A recast expression has the same text. -/
@[simp]
theorem Expr.text_recast (e : Expr) :
  (e.recast place grouped).text = e.text
  := by
  cases e with
  | ident | int | bool | str | bare => rfl
  | array p es => simp only [Expr.recast, Expr.text, Expr.texts_recastAll es]
  | map p es => simp only [Expr.recast, Expr.text, Expr.entryTexts_recastEntries es]
  | binary p l op r => simp only [Expr.recast, Expr.text, Expr.text_recast l, Expr.text_recast r]
  | unary p op e => simp only [Expr.recast, Expr.text, Expr.text_recast e]
  | index p c i => simp only [Expr.recast, Expr.text, Expr.text_recast c, Expr.text_recast i]
  | group p e =>
      have ih := Expr.text_recast e
      cases grouped <;> simpa [Expr.recast, Expr.text] using ih
  | call p f args =>
      simp only [Expr.recast, Expr.text, Expr.text_recast f, Expr.texts_recastAll args]
  | cond p c yes no =>
      simp only [Expr.recast, Expr.text, Expr.text_recast c, Stmt.text_recast yes,
        Stmt.elseText_recastElse no]
  | fn p params body => simp only [Expr.recast, Expr.text, Stmt.text_recast body]

theorem Expr.texts_recastAll (es : List Expr) :
  Expr.texts (Expr.recastAll place grouped es) = Expr.texts es
  := by
  cases es with
  | nil => rfl
  | cons e es =>
      simp only [Expr.recastAll, Expr.texts, Expr.text_recast e, Expr.texts_recastAll es]

theorem Expr.entryTexts_recastEntries (es : List (String × Expr)) :
  Expr.entryTexts (Expr.recastEntries place grouped es) = Expr.entryTexts es
  := by
  cases es with
  | nil => rfl
  | cons p es =>
      obtain ⟨k, e⟩ := p
      simp only [Expr.recastEntries, Expr.entryTexts, Expr.text_recast e,
        Expr.entryTexts_recastEntries es]

/-- A recast statement has the same text. -/
@[simp]
theorem Stmt.text_recast (s : Stmt) :
  (s.recast place grouped).text = s.text
  := by
  cases s with
  | bind p n e => simp only [Stmt.recast, Stmt.text, Expr.text_recast e]
  | ret p e => simp only [Stmt.recast, Stmt.text, Expr.text_recast e]
  | expr p e => simp only [Stmt.recast, Stmt.text, Expr.text_recast e]
  | block p body => simp only [Stmt.recast, Stmt.text, Stmt.texts_recastAll body]
  | bare p => rfl

theorem Stmt.texts_recastAll (ss : List Stmt) :
  Stmt.texts (Stmt.recastAll place grouped ss) = Stmt.texts ss
  := by
  cases ss with
  | nil => rfl
  | cons s ss =>
      simp only [Stmt.recastAll, Stmt.texts, Stmt.text_recast s, Stmt.texts_recastAll ss]

theorem Stmt.elseText_recastElse (s? : Option Stmt) :
  Stmt.elseText (Stmt.recastElse place grouped s?) = Stmt.elseText s?
  := by
  cases s? with
  | none => rfl
  | some s => simp only [Stmt.recastElse, Stmt.elseText, Stmt.text_recast s]

end

/-- A recast program has the same text. -/
@[simp]
theorem Program.text_recast (p : Program) :
  (p.recast place grouped).text = p.text
  := Stmt.texts_recastAll place grouped p.statements

end

/-! ### Faults -/

section

variable (place : Option Pos → Option Pos)

theorem fault?_recast (limit : Nat) :
  (∀ e : Expr, (e.recast place true).fault? limit = e.fault? limit)
    ∧ ∀ s : Stmt, (s.recast place true).fault? limit = s.fault? limit
  := by
  induction limit with
  | zero => exact ⟨fun _ => rfl, fun _ => rfl⟩
  | succ limit ih =>
      obtain ⟨ihe, ihs⟩ := ih
      constructor
      · intro e
        cases e with
        | ident | int | bool | str | bare => rfl
        | array p es =>
            simp only [Expr.recast, Expr.fault?, Expr.recastAll_eq_map, List.findSome?_map,
              Function.comp_def, ihe]
        | map p es =>
            simp only [Expr.recast, Expr.fault?, Expr.recastEntries_eq_map, List.findSome?_map,
              Function.comp_def, ihe]
        | binary | unary | index | group =>
            simp only [Expr.recast, if_true, Expr.fault?, ihe]
        | call p f args =>
            simp only [Expr.recast, Expr.fault?, Expr.recastAll_eq_map, List.findSome?_map,
              Function.comp_def, ihe]
        | cond p c yes no =>
            cases no <;>
              simp only [Expr.recast, Stmt.recastElse, Expr.fault?, Option.bind, ihe, ihs]
        | fn p params body => simp only [Expr.recast, Expr.fault?, ihs]
      · intro s
        cases s with
        | bind | ret | expr => simp only [Stmt.recast, Stmt.fault?, ihe]
        | block p body =>
            simp only [Stmt.recast, Stmt.fault?, Stmt.recastAll_eq_map, List.findSome?_map,
              Function.comp_def, ihs]
        | bare => rfl

/-- The same stands in the way of rendering an expression with other positions. -/
@[simp]
theorem Expr.fault?_recast (limit : Nat) (e : Expr) :
  (e.recast place true).fault? limit = e.fault? limit
  := (ExprScript.fault?_recast place limit).1 e

@[simp]
theorem Stmt.fault?_recast (limit : Nat) (s : Stmt) :
  (s.recast place true).fault? limit = s.fault? limit
  := (ExprScript.fault?_recast place limit).2 s

/-- An expression with other positions is rendered alike. -/
theorem Expr.render_recast (limit : Nat) (e : Expr) :
  (e.recast place true).render limit = e.render limit
  := by
  rw [Expr.render, Expr.fault?_recast, Expr.text_recast, Expr.render]

end

end ExprScript
