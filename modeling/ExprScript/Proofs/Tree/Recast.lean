import ExprScript.Tree

/-!
# Trees with other positions or without grouping

A tree is recast by changing the position of every node and by keeping the grouping of the
source or leaving it out.  Recasting a tree twice is recasting it once.
-/

namespace ExprScript

section

variable (place : Option Pos → Option Pos) (grouped : Bool)

mutual

/-- The expression with other positions, and with or without its grouping. -/
@[simp]
def Expr.recast : Expr → Expr
  | .ident p n => .ident (place p) n
  | .int p n => .int (place p) n
  | .bool p b => .bool (place p) b
  | .str p s => .str (place p) s
  | .array p es => .array (place p) (Expr.recastAll es)
  | .map p es => .map (place p) (Expr.recastEntries es)
  | .binary p l op r => .binary (place p) l.recast op r.recast
  | .unary p op e => .unary (place p) op e.recast
  | .index p c i => .index (place p) c.recast i.recast
  | .group p e => if grouped then .group (place p) e.recast else e.recast
  | .call p f args => .call (place p) f.recast (Expr.recastAll args)
  | .cond p c yes no => .cond (place p) c.recast yes.recast (Stmt.recastElse no)
  | .fn p params body => .fn (place p) params body.recast
  | .bare p => .bare (place p)

/-- A list of expressions, each recast. -/
@[simp]
def Expr.recastAll : List Expr → List Expr
  | [] => []
  | e :: es => e.recast :: Expr.recastAll es

/-- The entries of a map, each recast. -/
@[simp]
def Expr.recastEntries : List (String × Expr) → List (String × Expr)
  | [] => []
  | (k, e) :: es => (k, e.recast) :: Expr.recastEntries es

/-- The statement with other positions, and with or without its grouping. -/
@[simp]
def Stmt.recast : Stmt → Stmt
  | .bind p n e => .bind (place p) n e.recast
  | .ret p e => .ret (place p) e.recast
  | .expr p e => .expr (place p) e.recast
  | .block p body => .block (place p) (Stmt.recastAll body)
  | .bare p => .bare (place p)

/-- A list of statements, each recast. -/
@[simp]
def Stmt.recastAll : List Stmt → List Stmt
  | [] => []
  | s :: ss => s.recast :: Stmt.recastAll ss

/-- The branch after `else`, recast. -/
@[simp]
def Stmt.recastElse : Option Stmt → Option Stmt
  | none => none
  | some s => some s.recast

end

/-- The program with other positions, and with or without its grouping. -/
def Program.recast (p : Program) : Program := ⟨Stmt.recastAll place grouped p.statements⟩

theorem Expr.recastAll_eq_map (es : List Expr) :
  Expr.recastAll place grouped es = es.map (Expr.recast place grouped)
  := by
  induction es with
  | nil => rfl
  | cons e es ih => rw [Expr.recastAll, ih, List.map_cons]

theorem Expr.recastEntries_eq_map (es : List (String × Expr)) :
  Expr.recastEntries place grouped es = es.map fun p => (p.1, p.2.recast place grouped)
  := by
  induction es with
  | nil => rfl
  | cons p es ih => rw [Expr.recastEntries, ih, List.map_cons]

theorem Stmt.recastAll_eq_map (ss : List Stmt) :
  Stmt.recastAll place grouped ss = ss.map (Stmt.recast place grouped)
  := by
  induction ss with
  | nil => rfl
  | cons s ss ih => rw [Stmt.recastAll, ih, List.map_cons]

/-- The statements to run for a recast body are those of the body, recast. -/
theorem Stmt.statements_recast (s : Stmt) :
  (s.recast place grouped).statements = s.statements.map (Stmt.recast place grouped)
  := by
  cases s with
  | block p body => apply Stmt.recastAll_eq_map
  | _ => rfl

end

/-- Where a recast expression starts, if grouping is kept. -/
theorem Expr.pos_recast (place : Option Pos → Option Pos) (e : Expr) :
  (e.recast place true).pos = place e.pos
  := by
  cases e <;> rfl

/-! ### Recasting twice -/

section

variable (f g : Option Pos → Option Pos) (a b : Bool)

mutual

/-- Recasting an expression twice is recasting it once. -/
theorem Expr.recast_recast (e : Expr) :
  (e.recast f a).recast g b = e.recast (g ∘ f) (a && b)
  := by
  cases e with
  | ident | int | bool | str | bare => rfl
  | array p es => simp only [Expr.recast, Function.comp_apply, Expr.recastAll_recastAll es]
  | map p es =>
      simp only [Expr.recast, Function.comp_apply, Expr.recastEntries_recastEntries es]
  | binary p l op r =>
      simp only [Expr.recast, Function.comp_apply, Expr.recast_recast l, Expr.recast_recast r]
  | unary p op e => simp only [Expr.recast, Function.comp_apply, Expr.recast_recast e]
  | index p c i =>
      simp only [Expr.recast, Function.comp_apply, Expr.recast_recast c, Expr.recast_recast i]
  | group p e =>
      have ih := Expr.recast_recast e
      cases a <;> cases b <;> simpa [Expr.recast] using ih
  | call p f' args =>
      simp only [Expr.recast, Function.comp_apply, Expr.recast_recast f',
        Expr.recastAll_recastAll args]
  | cond p c yes no =>
      simp only [Expr.recast, Function.comp_apply, Expr.recast_recast c,
        Stmt.recast_recast yes, Stmt.recastElse_recastElse no]
  | fn p params body => simp only [Expr.recast, Function.comp_apply, Stmt.recast_recast body]

theorem Expr.recastAll_recastAll (es : List Expr) :
  Expr.recastAll g b (Expr.recastAll f a es) = Expr.recastAll (g ∘ f) (a && b) es
  := by
  cases es with
  | nil => rfl
  | cons e es => simp only [Expr.recastAll, Expr.recast_recast e, Expr.recastAll_recastAll es]

theorem Expr.recastEntries_recastEntries (es : List (String × Expr)) :
  Expr.recastEntries g b (Expr.recastEntries f a es) = Expr.recastEntries (g ∘ f) (a && b) es
  := by
  cases es with
  | nil => rfl
  | cons p es =>
      obtain ⟨k, e⟩ := p
      simp only [Expr.recastEntries, Expr.recast_recast e, Expr.recastEntries_recastEntries es]

/-- Recasting a statement twice is recasting it once. -/
theorem Stmt.recast_recast (s : Stmt) :
  (s.recast f a).recast g b = s.recast (g ∘ f) (a && b)
  := by
  cases s with
  | bind p n e => simp only [Stmt.recast, Function.comp_apply, Expr.recast_recast e]
  | ret p e => simp only [Stmt.recast, Function.comp_apply, Expr.recast_recast e]
  | expr p e => simp only [Stmt.recast, Function.comp_apply, Expr.recast_recast e]
  | block p body => simp only [Stmt.recast, Function.comp_apply, Stmt.recastAll_recastAll body]
  | bare p => rfl

theorem Stmt.recastAll_recastAll (ss : List Stmt) :
  Stmt.recastAll g b (Stmt.recastAll f a ss) = Stmt.recastAll (g ∘ f) (a && b) ss
  := by
  cases ss with
  | nil => rfl
  | cons s ss => simp only [Stmt.recastAll, Stmt.recast_recast s, Stmt.recastAll_recastAll ss]

theorem Stmt.recastElse_recastElse (s? : Option Stmt) :
  Stmt.recastElse g b (Stmt.recastElse f a s?) = Stmt.recastElse (g ∘ f) (a && b) s?
  := by
  cases s? with
  | none => rfl
  | some s => simp only [Stmt.recastElse, Stmt.recast_recast s]

end

/-- Recasting a program twice is recasting it once. -/
theorem Program.recast_recast (p : Program) :
  (p.recast f a).recast g b = p.recast (g ∘ f) (a && b)
  := by
  apply congrArg Program.mk
  apply Stmt.recastAll_recastAll

end

/-! ### Leaving all as it is -/

mutual

/-- With its positions and its grouping an expression is itself. -/
theorem Expr.recast_id (e : Expr) :
  e.recast id true = e
  := by
  cases e with
  | ident | int | bool | str | bare => rfl
  | array p es => simp only [Expr.recast, id, Expr.recastAll_id es]
  | map p es => simp only [Expr.recast, id, Expr.recastEntries_id es]
  | binary p l op r => simp only [Expr.recast, id, Expr.recast_id l, Expr.recast_id r]
  | unary p op e => simp only [Expr.recast, id, Expr.recast_id e]
  | index p c i => simp only [Expr.recast, id, Expr.recast_id c, Expr.recast_id i]
  | group p e => simp only [Expr.recast, id, if_true, Expr.recast_id e]
  | call p f args => simp only [Expr.recast, id, Expr.recast_id f, Expr.recastAll_id args]
  | cond p c yes no =>
      simp only [Expr.recast, id, Expr.recast_id c, Stmt.recast_id yes, Stmt.recastElse_id no]
  | fn p params body => simp only [Expr.recast, id, Stmt.recast_id body]

theorem Expr.recastAll_id (es : List Expr) :
  Expr.recastAll id true es = es
  := by
  cases es with
  | nil => rfl
  | cons e es => simp only [Expr.recastAll, Expr.recast_id e, Expr.recastAll_id es]

theorem Expr.recastEntries_id (es : List (String × Expr)) :
  Expr.recastEntries id true es = es
  := by
  cases es with
  | nil => rfl
  | cons p es =>
      obtain ⟨k, e⟩ := p
      simp only [Expr.recastEntries, Expr.recast_id e, Expr.recastEntries_id es]

/-- With its positions and its grouping a statement is itself. -/
theorem Stmt.recast_id (s : Stmt) :
  s.recast id true = s
  := by
  cases s with
  | bind p n e => simp only [Stmt.recast, id, Expr.recast_id e]
  | ret p e => simp only [Stmt.recast, id, Expr.recast_id e]
  | expr p e => simp only [Stmt.recast, id, Expr.recast_id e]
  | block p body => simp only [Stmt.recast, id, Stmt.recastAll_id body]
  | bare p => rfl

theorem Stmt.recastAll_id (ss : List Stmt) :
  Stmt.recastAll id true ss = ss
  := by
  cases ss with
  | nil => rfl
  | cons s ss => simp only [Stmt.recastAll, Stmt.recast_id s, Stmt.recastAll_id ss]

theorem Stmt.recastElse_id (s? : Option Stmt) :
  Stmt.recastElse id true s? = s?
  := by
  cases s? with
  | none => rfl
  | some s => simp only [Stmt.recastElse, Stmt.recast_id s]

end

/-- With its positions and its grouping a program is itself. -/
theorem Program.recast_id (p : Program) :
  p.recast id true = p
  := by
  apply congrArg Program.mk
  apply Stmt.recastAll_id

/-! ### Grouping and positions -/

/-- The program without the grouping of its source; positions are kept. -/
def Program.ungrouped (p : Program) : Program := p.recast id false

/-- The program without positions. -/
def Program.unplaced (p : Program) : Program := p.recast (fun _ => none) true

end ExprScript
