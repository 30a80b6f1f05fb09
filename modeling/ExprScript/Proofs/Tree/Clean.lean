import ExprScript.Proofs.Tree.Node
import ExprScript.Tree.Text

/-!
# Nodes that can be rendered

What stands in the way of rendering a node is the first thing that stands in the way of one of its
parts, unless the node is bare.  A node that can be rendered within some limit is clean: no bare
node lies within it, so that nothing but the limit ever stands in the way.
-/

namespace ExprScript.Node

/-- What first stands in the way of rendering a node within a limit. -/
def fault? (limit : Nat) : Node → Option RenderFault
  | .expr e => e.fault? limit
  | .stmt s => s.fault? limit

/-- Whether a node is bare. -/
def isBare : Node → Bool
  | .expr (.bare _) | .stmt (.bare _) => true
  | _ => false

/-- A node can be rendered within some limit. -/
def Clean (n : Node) : Prop := ∃ limit, n.fault? limit = none

variable {n : Node} {limit : Nat}

theorem findSome?_fault?_cons (c : Node) (cs : List Node) :
  (c :: cs).findSome? (fault? limit) = (c.fault? limit).or (cs.findSome? (fault? limit))
  := by
  rw [List.findSome?_cons]
  cases c.fault? limit <;> rfl

attribute [local simp] findSome?_fault?_cons fault? parts children Expr.fault? Stmt.fault?
  List.findSome?_map Function.comp_def in
/-- The parts of a node are rendered in their order. -/
theorem fault?_succ (h : n.isBare = false) :
  n.fault? (limit + 1) = n.parts.findSome? (fault? limit)
  := by
  cases n with
  | expr e =>
      cases e with
      | bare => cases h
      | cond p c yes no => cases no <;> simp
      | _ => simp
  | stmt s =>
      cases s with
      | bare => cases h
      | _ => simp

namespace Clean

theorem not_bare (h : n.Clean) :
  n.isBare = false
  := by
  obtain ⟨limit, h⟩ := h
  cases limit with
  | zero => cases n <;> simp [fault?, Expr.fault?, Stmt.fault?] at h
  | succ limit =>
      unfold isBare
      split
      · simp [fault?, Expr.fault?] at h
      · simp [fault?, Stmt.fault?] at h
      · rfl

theorem part {c : Node} (h : n.Clean) (hc : c ∈ n.parts) :
  c.Clean
  := by
  have hbare := h.not_bare
  obtain ⟨limit, h⟩ := h
  cases limit with
  | zero => cases n <;> simp [fault?, Expr.fault?, Stmt.fault?] at h
  | succ limit =>
      rw [fault?_succ hbare, List.findSome?_eq_none_iff] at h
      exact ⟨limit, h c hc⟩

theorem within {x : Node} (h : n.Clean) (hx : x.Within n) :
  x.Clean
  := by
  induction hx with
  | refl => apply h
  | part hc _ ih => apply ih (h.part hc)

/-- Nothing but the limit stands in the way of rendering a clean node. -/
theorem fault?_eq {e : RenderFault} (h : n.Clean) (he : n.fault? limit = some e) :
  e = .exhausted
  := by
  induction limit generalizing n with
  | zero => cases n <;> simpa [fault?, Expr.fault?, Stmt.fault?] using he.symm
  | succ limit ih =>
      rw [fault?_succ h.not_bare] at he
      obtain ⟨c, hc, he⟩ := List.exists_of_findSome?_eq_some he
      apply ih (h.part hc) he

end Clean

end ExprScript.Node
