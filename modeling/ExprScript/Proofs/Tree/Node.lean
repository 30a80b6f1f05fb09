import ExprScript.Tree

/-!
# Nodes

A node is an expression or a statement.  The parts of a node lie within it, and so do their
parts.
-/

namespace ExprScript

/-- What is evaluated: an expression or a statement. -/
inductive Node where
  | expr (e : Expr)
  | stmt (s : Stmt)

/-- The parts of a node that are evaluated with it.  The body of a function is not one. -/
def Node.children : Node → List Node
  | .expr (.array _ es) => es.map .expr
  | .expr (.map _ entries) => (entries.map Prod.snd).map .expr
  | .expr (.binary _ left _ right) => [.expr left, .expr right]
  | .expr (.unary _ _ operand) => [.expr operand]
  | .expr (.index _ collection position) => [.expr collection, .expr position]
  | .expr (.group _ inner) => [.expr inner]
  | .expr (.call _ callee args) => .expr callee :: args.map .expr
  | .expr (.cond _ condition consequence alternative) =>
    .expr condition :: .stmt consequence :: alternative.toList.map .stmt
  | .expr _ => []
  | .stmt (.bind _ _ e) | .stmt (.ret _ e) | .stmt (.expr _ e) => [.expr e]
  | .stmt (.block _ body) => body.map .stmt
  | .stmt (.bare _) => []

/-- Whether a statement binds a name. -/
def Stmt.isBind : Stmt → Bool
  | .bind _ _ _ => true
  | _ => false

namespace Node

/-- The branches of a conditional. -/
def branches : Node → List Stmt
  | .expr (.cond _ _ consequence alternative) => consequence :: alternative.toList
  | _ => []

/-- The number that a node is, if it is one. -/
def number? : Node → Option Int
  | .expr (.int _ n) => some n
  | _ => none

/-- All parts of a node, the body of a function among them. -/
def parts : Node → List Node
  | .expr (.fn _ _ body) => [.stmt body]
  | n => n.children

/-- A node is another one, or a part of it at any depth. -/
inductive Within (x : Node) : Node → Prop
  | refl : Within x x
  | part {n c} : c ∈ n.parts → Within x c → Within x n

theorem mem_parts_of_children {n c : Node} (h : c ∈ n.children) :
  c ∈ n.parts
  := by
  unfold parts
  split
  · cases h
  · apply h

theorem Within.trans {x y n : Node} (h : Within x y) (h' : Within y n) :
  Within x n
  := by
  induction h' with
  | refl => apply h
  | part hc _ ih => exact .part hc ih

theorem within_of_part {n c : Node} (h : c ∈ n.parts) :
  Within c n
  := .part h .refl

/-- A part is smaller than the node. -/
theorem sizeOf_lt_of_part {n c : Node} (h : c ∈ n.parts) :
  sizeOf c < sizeOf n
  := by
  have hlist : ∀ {e : Expr} {es : List Expr}, e ∈ es → sizeOf e < sizeOf es :=
    List.sizeOf_lt_of_mem
  have hblock : ∀ {s : Stmt} {ss : List Stmt}, s ∈ ss → sizeOf s < sizeOf ss :=
    List.sizeOf_lt_of_mem
  have hentries : ∀ {k : String} {e : Expr} {es : List (String × Expr)}, (k, e) ∈ es →
      sizeOf e < sizeOf es := by
    intro k e es he
    have hlt := List.sizeOf_lt_of_mem he
    rw [Prod.mk.sizeOf_spec] at hlt
    omega
  cases n with
  | expr e => cases e <;> simp [parts, children] at h ⊢ <;> grind
  | stmt s => cases s <;> simp [parts, children] at h ⊢ <;> grind

theorem Within.sizeOf_le {x n : Node} (h : x.Within n) :
  sizeOf x ≤ sizeOf n
  := by
  induction h with
  | refl => apply Nat.le_refl
  | part hc _ ih => exact Nat.le_trans ih (Nat.le_of_lt (sizeOf_lt_of_part hc))

/-- The statements to run for a body lie within it. -/
theorem within_of_statements {body s : Stmt} (h : s ∈ body.statements) :
  Within (.stmt s) (.stmt body)
  := by
  cases body with
  | block pos ss => exact within_of_part (List.mem_map_of_mem h)
  | _ =>
      rw [List.mem_singleton.mp h]
      exact .refl

end Node

/-- A node lies within a statement of the program. -/
def Program.Has (p : Program) (n : Node) : Prop := ∃ s ∈ p.statements, n.Within (.stmt s)

end ExprScript
