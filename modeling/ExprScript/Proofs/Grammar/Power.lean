import ExprScript.Proofs.Grammar
import ExprScript.Reader.Program

/-!
# Binding powers and layers

The reader knows the operators by their binding powers, and the grammar by their layers.  A
binding power stands for the loosest layer whose operators bind at least as tightly: a link is
too weak for a power exactly when its layer is looser than that of the power, and the power of a
binary operator to its right stands for the layer after its own.
-/

namespace ExprScript

/-- The loosest layer whose operators bind at least with the given power. -/
def layerAt (power : Nat) : Nat :=
  if power ≤ 1 then 0 else if power ≤ 3 then 1 else if power ≤ 5 then 2 else if power ≤ 7 then 3
  else if power ≤ 9 then 4 else if power ≤ 10 then 5 else if power ≤ 12 then 6 else 7

/-- The layer of a link. -/
def Link.layer (link : Link) : Nat := layerAt link.power

namespace Kind

open Grammar

/-- The links of a token of this kind, if it has one, are looser than a layer. -/
def Below (layer : Nat) (k : Kind) : Prop := ∀ link, k.link? = some link → link.layer < layer

/-- The binding powers of links, each of which is the largest power of its layer. -/
theorem power_mem {k : Kind} {link : Link} (h : k.link? = some link) :
  link.power ∈ [1, 3, 5, 7, 9, 10, 12]
  := by
  unfold link? at h
  split at h
  all_goals
    cases h
  all_goals decide

/-- A link is too weak for a power exactly when its layer is looser than that of the power. -/
theorem power_lt_iff {k : Kind} {link : Link} (h : k.link? = some link) (power : Nat) :
  link.power < power ↔ link.layer < layerAt power
  := by
  have hp := power_mem h
  simp only [List.mem_cons, List.not_mem_nil, or_false] at hp
  unfold Link.layer
  rcases hp with hp | hp | hp | hp | hp | hp | hp
  all_goals
    rw [hp]
    grind [layerAt]

/-- The reader knows the operators of every layer, and asks for the next layer on their
right. -/
theorem link?_of_mem_operators {k : Kind} {op : BinaryOp} {n : Nat} (h : (k, op) ∈ operators n) :
  ∃ left right, k.link? = some (.binary op left right) ∧ layerAt left = n ∧ layerAt right = n + 1
  := by
  unfold operators at h
  split at h
  all_goals
    simp only [List.mem_cons, Prod.mk.injEq, List.not_mem_nil, or_false] at h
  · obtain ⟨rfl, rfl⟩ := h
    exact ⟨1, 2, rfl, rfl, rfl⟩
  · obtain ⟨rfl, rfl⟩ := h
    exact ⟨3, 4, rfl, rfl, rfl⟩
  · rcases h with ⟨rfl, rfl⟩ | ⟨rfl, rfl⟩ <;> exact ⟨5, 6, rfl, rfl, rfl⟩
  · rcases h with ⟨rfl, rfl⟩ | ⟨rfl, rfl⟩ | ⟨rfl, rfl⟩ | ⟨rfl, rfl⟩ <;>
      exact ⟨7, 8, rfl, rfl, rfl⟩
  · rcases h with ⟨rfl, rfl⟩ | ⟨rfl, rfl⟩ <;> exact ⟨9, 10, rfl, rfl, rfl⟩
  · rcases h with ⟨rfl, rfl⟩ | ⟨rfl, rfl⟩ | ⟨rfl, rfl⟩ <;> exact ⟨10, 11, rfl, rfl, rfl⟩

/-- Every binary operator of the reader is one of its layer, and the reader asks for the next
layer on its right. -/
theorem mem_operators_of_link? {k : Kind} {op : BinaryOp} {left right : Nat}
    (h : k.link? = some (.binary op left right)) :
  (k, op) ∈ operators (layerAt left) ∧ layerAt right = layerAt left + 1
  := by
  unfold link? at h
  split at h
  all_goals
    cases h
  all_goals decide

/-- A call starts at a parenthesis. -/
theorem link?_eq_call {k : Kind} :
  k.link? = some .call ↔ k = .lparen
  := by
  cases k <;> decide

/-- An index starts at a bracket. -/
theorem link?_eq_index {k : Kind} :
  k.link? = some .index ↔ k = .lbracket
  := by
  cases k <;> decide

/-- A token could go on with an expression exactly when the reader has a link for it. -/
theorem goesOn_iff {k : Kind} :
  GoesOn k ↔ ∃ link, k.link? = some link
  := by
  constructor
  · rintro (rfl | rfl | ⟨n, op, h⟩)
    · exact ⟨.call, rfl⟩
    · exact ⟨.index, rfl⟩
    · obtain ⟨left, right, h, -⟩ := link?_of_mem_operators h
      exact ⟨_, h⟩
  · rintro ⟨_ | _ | ⟨op, left, right⟩, h⟩
    · exact .inl (link?_eq_call.mp h)
    · exact .inr (.inl (link?_eq_index.mp h))
    · exact .inr (.inr ⟨_, op, (mem_operators_of_link? h).1⟩)

/-- The operators in front of an operand are those of the grammar. -/
theorem unary?_eq_some {k : Kind} {op : UnaryOp} :
  k.unary? = some op ↔ (k, op) ∈ unaryOperators
  := by
  cases k <;> simp [unary?, unaryOperators, eq_comm]

/-- There is no link of a layer beyond calls and indexing. -/
theorem below_operand (k : Kind) :
  k.Below 7
  := by
  intro link h
  unfold link? at h
  split at h
  all_goals
    cases h
  all_goals decide

theorem Below.mono {k : Kind} {m n : Nat} (h : k.Below m) (hmn : m ≤ n) :
  k.Below n
  := by
  intro link hl
  apply Nat.lt_of_lt_of_le (h link hl) hmn

theorem below_of_link?_eq_none {k : Kind} (h : k.link? = none) (n : Nat) :
  k.Below n
  := by
  intro link hl
  rw [h] at hl
  cases hl

/-- Nothing goes on with an expression of the loosest layer. -/
theorem below_zero {k : Kind} :
  k.Below 0 ↔ ¬ GoesOn k
  := by
  rw [goesOn_iff]
  constructor
  · rintro h ⟨link, hl⟩
    apply absurd (h link hl) (Nat.not_lt_zero _)
  · intro h link hl
    apply absurd ⟨link, hl⟩ h

end Kind

end ExprScript
