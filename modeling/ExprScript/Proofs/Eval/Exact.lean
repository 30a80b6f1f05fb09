import ExprScript.Eval.Run
import ExprScript.Proofs.Arith
import ExprScript.Proofs.Stateful
import Mathlib.Data.Int.ModEq

/-!
# Calculating modulo 2^32

An expression of integers, sums, differences, products, negations, inversions and parentheses has an
exact value.  Evaluation wraps the result of nearly every operator, and comes to what wrapping the
exact value once would give: wrapping respects the operators, because it picks the only number in
the range that is congruent modulo 2^32.
-/

namespace ExprScript

namespace Arith

/-! ### Wrapping respects the operators -/

variable {a b n : Int}

theorem wrap_modEq (n : Int) :
  wrap n ≡ n [ZMOD 4294967296]
  := by
  unfold Int.ModEq wrap
  omega

/-- Only one number in the range is congruent to a given one. -/
theorem eq_wrap (ha : Fits a) (h : a ≡ n [ZMOD 4294967296]) :
  a = wrap n
  := by
  unfold Fits Int.ModEq wrap at *
  omega

theorem wrap_of_fits (h : Fits n) :
  wrap n = n
  := (eq_wrap h (Int.ModEq.refl n)).symm

theorem wrap_congr (h : a ≡ b [ZMOD 4294967296]) :
  wrap a = wrap b
  := eq_wrap (fits_wrap a) ((wrap_modEq a).trans h)

theorem wrap_add (a b : Int) :
  wrap (wrap a + wrap b) = wrap (a + b)
  := wrap_congr ((wrap_modEq a).add (wrap_modEq b))

theorem wrap_sub (a b : Int) :
  wrap (wrap a - wrap b) = wrap (a - b)
  := wrap_congr ((wrap_modEq a).sub (wrap_modEq b))

theorem wrap_mul (a b : Int) :
  wrap (wrap a * wrap b) = wrap (a * b)
  := wrap_congr ((wrap_modEq a).mul (wrap_modEq b))

theorem wrap_neg (n : Int) :
  wrap (-wrap n) = wrap (-n)
  := wrap_congr (wrap_modEq n).neg

/-- Inverting the bits does not lead out of the range, so it need not be followed by wrapping. -/
theorem complement_wrap (n : Int) :
  complement (wrap n) = wrap (-n - 1)
  := by
  apply eq_wrap (fits_complement (fits_wrap n))
  apply (wrap_modEq n).neg.sub_right

end Arith

open Arith

/-- The expression is made of integers as they can be written, sums, differences, products,
negations, inversions and parentheses, and comes to the number if nothing is ever wrapped. -/
inductive Exact : Expr → Int → Prop
  | int {pos n} : 0 ≤ n → n ≤ 2147483647 → Exact (.int pos n) n
  | group {pos e n} : Exact e n → Exact (.group pos e) n
  | neg {pos e n} : Exact e n → Exact (.unary pos .neg e) (-n)
  | not {pos e n} : Exact e n → Exact (.unary pos .not e) (-n - 1)
  | add {pos l r a b} : Exact l a → Exact r b → Exact (.binary pos l .add r) (a + b)
  | sub {pos l r a b} : Exact l a → Exact r b → Exact (.binary pos l .sub r) (a - b)
  | mul {pos l r a b} : Exact l a → Exact r b → Exact (.binary pos l .mul r) (a * b)

/-- How deeply operators and parentheses are nested in an expression. -/
def Expr.height : Expr → Nat
  | .group _ e | .unary _ _ e => e.height + 1
  | .binary _ l _ r => max l.height r.height + 1
  | _ => 1

namespace Eval

open Stateful

variable {pos : Option Pos} {e l r : Expr} {a b n : Int}

/-- The evaluation of the expression changes nothing.  It has an integer for a result within every
limit that the expression does not exceed. -/
def ComesTo (e : Expr) (n : Int) : Prop :=
  ∀ limit m, (expression limit e).run m
    = if e.height ≤ limit then .ok (.int n) m else .error .exhausted m

theorem comesTo_int (pos : Option Pos) (n : Int) :
  ComesTo (.int pos n) n
  := by
  intro limit m
  cases limit with
  | zero => rfl
  | succ limit =>
      have hheight : (Expr.int pos n).height ≤ limit + 1 := Nat.le_add_left 1 limit
      rw [if_pos hheight]
      rfl

theorem ComesTo.group (h : ComesTo e n) :
  ComesTo (.group pos e) n
  := by
  intro limit m
  cases limit with
  | zero => rfl
  | succ limit =>
      rw [expression, h, Expr.height]
      simp only [Nat.add_le_add_iff_right]

theorem ComesTo.run_of_le (h : ComesTo e n) {limit : Nat} (hl : e.height ≤ limit) (m : Machine) :
  (expression limit e).run m = .ok (.int n) m
  := (h limit m).trans (if_pos hl)

theorem ComesTo.run_of_not_le (h : ComesTo e n) {limit : Nat} (hl : ¬ e.height ≤ limit)
    (m : Machine) :
  (expression limit e).run m = .error .exhausted m
  := (h limit m).trans (if_neg hl)

/-- An operator takes the value of its operand. -/
theorem ComesTo.unary {op : UnaryOp} (h : ComesTo e a)
    (hop : Value.unary op (.int a) = .ok (.int n)) :
  ComesTo (.unary pos op e) n
  := by
  intro limit m
  cases limit with
  | zero => rfl
  | succ limit =>
      rw [Expr.height, expression]
      simp only [Nat.add_le_add_iff_right]
      by_cases hl : e.height ≤ limit
      · rw [run_bind_of_ok (h.run_of_le hl m), if_pos hl]
        simp only [proceed, Value.isReturned, Bool.false_eq_true, if_false, hop]
        rfl
      · rw [run_bind_of_error (h.run_of_not_le hl m), if_neg hl]

/-- An operator takes the values of its operands, the left one first. -/
theorem ComesTo.binary {op : BinaryOp} (hand : op ≠ .and) (hor : op ≠ .or) (hl : ComesTo l a)
    (hr : ComesTo r b) (hop : Value.binaryInt op a b = .ok (.int n)) :
  ComesTo (.binary pos l op r) n
  := by
  intro limit m
  cases limit with
  | zero => rfl
  | succ limit =>
      have hexpression : expression (limit + 1) (.binary pos l op r)
          = expression limit l >>= fun v => proceed v fun v =>
              expression limit r >>= fun w => proceed w fun w =>
                orFail pos (Value.binary op v w) := by
        rw [expression]
        · exact hand
        · exact hor
      rw [Expr.height, hexpression]
      simp only [Nat.add_le_add_iff_right, Nat.max_le]
      by_cases hleft : l.height ≤ limit
      · rw [run_bind_of_ok (hl.run_of_le hleft m)]
        simp only [proceed, Value.isReturned, Bool.false_eq_true, if_false]
        by_cases hright : r.height ≤ limit
        · rw [run_bind_of_ok (hr.run_of_le hright m), if_pos ⟨hleft, hright⟩]
          simp only [Bool.false_eq_true, if_false, Value.binary, hop]
          rfl
        · rw [run_bind_of_error (hr.run_of_not_le hright m), if_neg fun h => hright h.2]
      · rw [run_bind_of_error (hl.run_of_not_le hleft m), if_neg fun h => hleft h.1]

/-- Wrapping at every operator comes to what wrapping once would. -/
theorem comesTo_of_exact (h : Exact e n) :
  ComesTo e (wrap n)
  := by
  induction h with
  | int hn hn' =>
      rw [wrap_of_fits ⟨by omega, hn'⟩]
      apply comesTo_int
  | group _ ih => apply ih.group
  | neg _ ih =>
      apply ih.unary
      rw [Value.unary, wrap_neg]
  | not _ ih =>
      apply ih.unary
      rw [Value.unary, complement_wrap]
  | add _ _ ihl ihr =>
      apply ihl.binary (by decide) (by decide) ihr
      simp only [Value.binaryInt, BinaryOp.comparison?, wrap_add]
  | sub _ _ ihl ihr =>
      apply ihl.binary (by decide) (by decide) ihr
      simp only [Value.binaryInt, BinaryOp.comparison?, wrap_sub]
  | mul _ _ ihl ihr =>
      apply ihl.binary (by decide) (by decide) ihr
      simp only [Value.binaryInt, BinaryOp.comparison?, wrap_mul]

/-- An expression of integers comes to its exact value, wrapped: to the only number in the range
that is congruent to it modulo 2^32. -/
theorem expression_of_exact {e : Expr} {n : Int} (h : Exact e n) :
  (∀ limit m, (expression limit e).run m
      = if e.height ≤ limit then .ok (.int (wrap n)) m else .error .exhausted m)
    ∧ (∀ k, k = wrap n ↔ k ≡ n [ZMOD 2 ^ 32] ∧ -2 ^ 31 ≤ k ∧ k ≤ 2 ^ 31 - 1)
  := by
  refine ⟨comesTo_of_exact h, ?_⟩
  intro k
  constructor
  · rintro rfl
    exact ⟨wrap_modEq n, fits_wrap n⟩
  · rintro ⟨hmod, hfits⟩
    apply eq_wrap hfits hmod

/-- The square of the largest integer, less an inversion. -/
theorem expression_of_exact_square :
  (expression 3 (.binary none (.binary none (.int none 2147483647) .mul (.int none 2147483647)) .sub
      (.unary none .not (.int none 5)))).run Machine.start
    = .ok (.int 7) Machine.start
  := by
  have hmax : Exact (.int none 2147483647) 2147483647 := .int (by decide) (by decide)
  have hfive : Exact (.int none 5) 5 := .int (by decide) (by decide)
  have hwrap : wrap (2147483647 * 2147483647 - (-5 - 1)) = 7 := by decide
  rw [← hwrap]
  apply (expression_of_exact (.sub (.mul hmax hmax) (.not hfive))).1 3 Machine.start

end Eval

end ExprScript
