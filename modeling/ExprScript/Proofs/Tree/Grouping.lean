import Mathlib.Data.List.Forall2
import ExprScript.Proofs.Tree.Clean
import ExprScript.Proofs.Tree.Recast

/-!
# Grouping and the limit

Parentheses add to the height of a tree and to nothing else.  A tree and the same tree without its
grouping are compared here, each within a limit of its own.  One of the two leads: unless its limit
is used up, the same stands in the way of rendering both.  If the tree with the grouping leads, the
other one needs no higher limit; the other way round the limit has to make up for the parentheses.
-/

namespace ExprScript

/-- The number of pairs of parentheses directly around an expression. -/
def Expr.groups : Expr → Nat
  | .group _ e => e.groups + 1
  | _ => 0

/-- The name that an expression is once it is taken out of one or more pairs of parentheses. -/
def Expr.groupedName? : Expr → Option String
  | .group _ (.ident _ name) => some name
  | .group _ e => e.groupedName?
  | _ => none

namespace Node

variable (place : Option Pos → Option Pos)

/-- The node with other positions, and with or without its grouping. -/
def recast (kept : Bool) : Node → Node
  | .expr e => .expr (e.recast place kept)
  | .stmt s => .stmt (s.recast place kept)

/-- The number of pairs of parentheses directly around a node that are left out, unless grouping
is kept. -/
def shed (kept : Bool) : Node → Nat
  | .expr e => if kept then 0 else e.groups
  | .stmt _ => 0

attribute [local simp] recast parts children shed Expr.groups Expr.recastAll_eq_map
  Expr.recastEntries_eq_map Stmt.recastAll_eq_map Function.comp_def in
/-- Apart from parentheses that are left out, the parts of a recast node are its parts, recast. -/
theorem parts_recast {kept : Bool} {n : Node} (h : n.shed kept = 0) :
  (n.recast place kept).parts = n.parts.map (recast place kept)
  := by
  cases n with
  | expr e =>
      cases e with
      | group p e => cases kept <;> simp at h ⊢
      | cond p c yes no => cases no <;> simp
      | _ => simp
  | stmt s => cases s <;> simp

theorem isBare_recast {kept : Bool} {n : Node} (h : n.shed kept = 0) :
  (n.recast place kept).isBare = n.isBare
  := by
  cases n with
  | expr e =>
      cases e with
      | group p e =>
          cases kept with
          | true => rfl
          | false => simp [shed, Expr.groups] at h
      | _ => rfl
  | stmt s => cases s <;> rfl

/-- Parentheses that are left out stand around an expression. -/
theorem eq_group_of_shed {kept : Bool} {n : Node} {groups : Nat} (h : n.shed kept = groups + 1) :
  kept = false ∧ ∃ p e, n = .expr (.group p e) ∧ e.groups = groups
  := by
  cases n with
  | stmt s => cases h
  | expr e =>
      cases kept with
      | true => cases h
      | false =>
          cases e with
          | group p e => exact ⟨rfl, p, e, rfl, Nat.succ.inj h⟩
          | _ => cases h

/-- A node without a form of its own is refused by its sort. -/
theorem fault?_recast_of_isBare {limit limit' : Nat} {kept : Bool} {n : Node}
    (h : n.isBare = true) :
  (n.recast place kept).fault? (limit' + 1) = n.fault? (limit + 1)
  := by
  unfold isBare at h
  split at h
  · rfl
  · rfl
  · cases h

end Node

/-! ### Leading -/

/-- The one of two trees, the first with its grouping and the second without, that leads. -/
inductive Leader where
  | grouped
  | ungrouped

namespace Leader

/-- The limit of the tree that does not lead goes as far as that of the tree that leads.  There are
at most `slack` pairs of parentheses around an expression, and `groups` of them are yet to be
passed. -/
def Covers (slack groups limit limit' : Nat) : Leader → Prop
  | .grouped => limit ≤ limit'
  | .ungrouped => limit' * (slack + 1) + groups ≤ limit

/-- Both trees come to the same, unless the one that leads comes to the exhaustion of its limit. -/
inductive Agrees {α : Type} (exhausted : α) : Leader → α → α → Prop
  | same {lead} (a) : Agrees exhausted lead a a
  | grouped {a} : Agrees exhausted .grouped exhausted a
  | ungrouped {a} : Agrees exhausted .ungrouped a exhausted

variable {lead : Leader} {slack groups limit limit' : Nat}

theorem Agrees.map {α β : Type} {exhausted a b : α} (h : lead.Agrees exhausted a b) (f : α → β) :
  lead.Agrees (f exhausted) (f a) (f b)
  := by
  cases h with
  | same => exact .same (f a)
  | grouped => exact .grouped
  | ungrouped => exact .ungrouped

theorem Covers.cases (h : lead.Covers slack groups limit limit') :
  (lead = .grouped ∧ limit = 0) ∨ (lead = .ungrouped ∧ limit' = 0)
    ∨ ∃ k k', limit = k + 1 ∧ limit' = k' + 1
  := by
  cases lead with
  | grouped =>
      have hle : limit ≤ limit' := h
      cases limit with
      | zero => exact .inl ⟨rfl, rfl⟩
      | succ k =>
          obtain ⟨k', rfl⟩ := Nat.exists_eq_add_of_lt hle
          exact .inr (.inr ⟨k, k + k', rfl, rfl⟩)
  | ungrouped =>
      have hle : limit' * (slack + 1) + groups ≤ limit := h
      cases limit' with
      | zero => exact .inr (.inl ⟨rfl, rfl⟩)
      | succ k' =>
          rw [Nat.succ_mul] at hle
          obtain ⟨k, rfl⟩ := Nat.exists_eq_succ_of_ne_zero (n := limit) (by omega)
          exact .inr (.inr ⟨k, k', rfl, rfl⟩)

/-- A pair of parentheses uses up the limit of one tree only. -/
theorem Covers.group (h : lead.Covers slack (groups + 1) (limit + 1) limit') :
  lead.Covers slack groups limit limit'
  := by
  cases lead with
  | grouped => exact Nat.le_of_succ_le h
  | ungrouped => exact Nat.le_of_succ_le_succ h

/-- Going on to a part uses up the limits of both trees. -/
theorem Covers.part (h : lead.Covers slack 0 (limit + 1) (limit' + 1)) (hgroups : groups ≤ slack) :
  lead.Covers slack groups limit limit'
  := by
  cases lead with
  | grouped => exact Nat.le_of_succ_le_succ h
  | ungrouped =>
      have hle : (limit' + 1) * (slack + 1) + 0 ≤ limit + 1 := h
      rw [Nat.succ_mul] at hle
      show limit' * (slack + 1) + groups ≤ limit
      omega

/-- What first stands in the way of one of several things. -/
theorem agrees_findSome? {α β : Type} {f : α → Option RenderFault} {g : β → Option RenderFault}
    {as : List α} {bs : List β}
    (h : List.Forall₂ (fun a b => lead.Agrees (some .exhausted) (f a) (g b)) as bs) :
  lead.Agrees (some .exhausted) (as.findSome? f) (bs.findSome? g)
  := by
  induction h with
  | nil => exact .same none
  | @cons a b as bs hab _ ih =>
      rw [List.findSome?_cons, List.findSome?_cons]
      generalize f a = fault at hab ⊢
      generalize g b = fault' at hab ⊢
      cases hab with
      | grouped => exact .grouped
      | ungrouped => exact .ungrouped
      | same =>
          cases fault with
          | some e => exact .same (some e)
          | none => apply ih

/-- The texts of several things, unless one of them has none. -/
theorem agrees_mapM {α β γ : Type} {f : α → Except RenderFault γ} {g : β → Except RenderFault γ}
    {as : List α} {bs : List β}
    (h : List.Forall₂ (fun a b => lead.Agrees (.error .exhausted) (f a) (g b)) as bs) :
  lead.Agrees (.error .exhausted) (as.mapM f) (bs.mapM g)
  := by
  induction h with
  | nil => exact .same (pure [])
  | @cons a b as bs hab _ ih =>
      rw [List.mapM_cons, List.mapM_cons]
      generalize f a = r at hab ⊢
      generalize g b = r' at hab ⊢
      cases hab with
      | grouped => exact .grouped
      | ungrouped => exact .ungrouped
      | same =>
          cases r with
          | error e => exact .same (Except.error e)
          | ok c => exact ih.map (· >>= fun cs => pure (c :: cs))

end Leader

/-! ### Regions -/

/-- A set of nodes that has all parts of its nodes, and in which fewer than `slack` pairs of
parentheses stand directly around an expression. -/
structure Region (V : Node → Prop) (slack : Nat) : Prop where
  part : ∀ {n c}, V n → c ∈ n.parts → V c
  groups : ∀ {e}, V (.expr e) → e.groups < slack

variable {V : Node → Prop} {slack : Nat}

theorem Region.shed_le (hV : Region V slack) {kept : Bool} {n : Node} (hn : kept = false → V n) :
  n.shed kept ≤ slack
  := by
  cases n with
  | stmt s => apply Nat.zero_le
  | expr e =>
      cases kept with
      | true => apply Nat.zero_le
      | false => exact Nat.le_of_lt (hV.groups (hn rfl))

/-- Leaving out the grouping inside a region changes what stands in the way of rendering a node by
nothing but the limit. -/
theorem Region.agrees_fault? (hV : Region V slack) {lead : Leader} {kept : Bool} {n : Node}
    (hn : kept = false → V n) {limit limit' : Nat}
    (hc : lead.Covers slack (n.shed kept) limit limit') :
  lead.Agrees (some .exhausted) (n.fault? limit) ((n.recast id kept).fault? limit')
  := by
  have hzero : ∀ n : Node, n.fault? 0 = some .exhausted := by
    intro n
    cases n with
    | expr e => rw [Node.fault?, Expr.fault?]
    | stmt s => rw [Node.fault?, Stmt.fault?]
  induction limit generalizing n limit' with
  | zero =>
      rcases hc.cases with ⟨rfl, -⟩ | ⟨rfl, rfl⟩ | ⟨_, _, h, -⟩
      · rw [hzero]
        exact .grouped
      · rw [hzero (n.recast id kept)]
        exact .ungrouped
      · cases h
  | succ limit ih =>
      cases hshed : n.shed kept with
      | succ groups =>
          rw [hshed] at hc
          obtain ⟨rfl, p, e, rfl, rfl⟩ := Node.eq_group_of_shed hshed
          exact ih (n := .expr e) (fun _ => hV.part (hn rfl) List.mem_cons_self) hc.group
      | zero =>
          rw [hshed] at hc
          rcases hc.cases with ⟨-, h⟩ | ⟨rfl, rfl⟩ | ⟨_, limit', h, rfl⟩
          · cases h
          · rw [hzero (n.recast id kept)]
            exact .ungrouped
          · cases hbare : n.isBare with
            | true =>
                rw [Node.fault?_recast_of_isBare id hbare]
                exact .same _
            | false =>
                have hbare' := (Node.isBare_recast id hshed).trans hbare
                rw [Node.fault?_succ hbare, Node.fault?_succ hbare', Node.parts_recast id hshed]
                apply Leader.agrees_findSome?
                rw [List.forall₂_map_right_iff, List.forall₂_same]
                intro c hcmem
                have hcV : kept = false → V c := fun h => hV.part (hn h) hcmem
                apply ih hcV (hc.part (hV.shed_le hcV))

/-! ### The region of a program -/

theorem Expr.groups_le_sizeOf (e : Expr) :
  e.groups ≤ sizeOf e
  := by
  induction e using Expr.groups.induct with
  | case1 p e ih =>
      rw [Expr.groups, Expr.group.sizeOf_spec]
      omega
  | case2 e h =>
      rw [Expr.groups]
      · apply Nat.zero_le
      · apply h

/-- The nodes of a program are a region. -/
theorem Program.exists_region (p : Program) :
  ∃ slack, Region p.Has slack
  := by
  refine ⟨sizeOf p.statements + 1, ?_, ?_⟩
  · rintro n c ⟨s, hs, hn⟩ hc
    exact ⟨s, hs, (Node.within_of_part hc).trans hn⟩
  · rintro e ⟨s, hs, he⟩
    have hgroups := e.groups_le_sizeOf
    have hsize := he.sizeOf_le
    have hs := List.sizeOf_lt_of_mem hs
    rw [Node.expr.sizeOf_spec, Node.stmt.sizeOf_spec] at hsize
    omega

end ExprScript
