import ExprScript.Tree

/-!
# Arithmetic on 32-bit integers

Sums, differences, products and quotients are computed exactly and then brought into the
range of signed 32-bit integers modulo 2^32.  Numbers are divided by their sizes, so that division
rounds toward zero, and the remainder has the sign of the dividend.
-/

namespace ExprScript

namespace Arith

/-- The number congruent to `n` modulo 2^32 in the range from -2^31 to 2^31 - 1. -/
def wrap (n : Int) : Int := (n + 2147483648) % 4294967296 - 2147483648

/-- Inverts every bit of a number. -/
def complement (n : Int) : Int := -n - 1

/-- Quotient and remainder: the sizes are divided, and the quotient is negative if exactly one of
the numbers is. -/
def divide (a b : Int) : Int × Int :=
  let size : Int := (a.natAbs / b.natAbs : Nat)
  let q := if decide (a < 0) ≠ decide (b < 0) then -size else size
  (q, a - q * b)

/-- The quotient is rounded toward zero. -/
theorem divide_fst (a b : Int) :
  (divide a b).1 = a.tdiv b
  := by
  have hnat : ∀ n : Nat, ¬ ((n : Int) < 0) := by omega
  cases a <;> cases b <;> simp [divide, Int.tdiv, hnat]

/-- The remainder is what the rounded quotient leaves. -/
theorem divide_snd (a b : Int) :
  (divide a b).2 = a.tmod b
  := by
  have hsnd : (divide a b).2 = a - (divide a b).1 * b := rfl
  rw [hsnd, divide_fst, Int.tmod_def, Int.mul_comm]

end Arith

/-- What a comparison asks of the order of its operands. -/
def BinaryOp.comparison? : BinaryOp → Option (Ordering → Bool)
  | .eq => some Ordering.isEq
  | .ne => some Ordering.isNe
  | .lt => some Ordering.isLT
  | .le => some Ordering.isLE
  | .gt => some Ordering.isGT
  | .ge => some Ordering.isGE
  | _ => none

end ExprScript
