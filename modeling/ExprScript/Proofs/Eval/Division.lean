import ExprScript.Proofs.Eval.Exact
import Mathlib.Data.Rat.Floor

/-!
# Division of 32-bit integers

Two integers are divided by their sizes, the sign of the quotient is found from the signs of the
two, and the quotient is wrapped while the remainder is not.  This is the signed division of words
of 32 bits: the quotient is rounded toward zero, except that the least integer divided by -1 is
the least integer again, and the remainder, smaller than the divisor, has the sign of the dividend.
-/

namespace ExprScript

namespace Arith

variable {a b : Int}

/-! ### Rounding toward zero -/

/-- A number without its fraction. -/
def truncate (x : ℚ) : Int := if 0 ≤ x then ⌊x⌋ else ⌈x⌉

theorem truncate_of_nonneg {x : ℚ} (h : 0 ≤ x) :
  truncate x = ⌊x⌋
  := if_pos h

theorem truncate_of_nonpos {x : ℚ} (h : x ≤ 0) :
  truncate x = ⌈x⌉
  := by
  rcases h.eq_or_lt with rfl | h
  · simp [truncate]
  · apply if_neg (not_le.mpr h)

theorem truncate_neg (x : ℚ) :
  truncate (-x) = -truncate x
  := by
  rcases le_total 0 x with h | h
  · rw [truncate_of_nonneg h, truncate_of_nonpos (neg_nonpos.mpr h), Int.ceil_neg]
  · rw [truncate_of_nonpos h, truncate_of_nonneg (neg_nonneg.mpr h), Int.floor_neg]

/-- Dividing the sizes and finding the sign apart rounds toward zero. -/
theorem divide_fst_eq_truncate (a b : Int) :
  (divide a b).1 = truncate ((a : ℚ) / b)
  := by
  have hnat : ∀ m n : Nat, truncate ((m : ℚ) / n) = (m : Int).tdiv n := by
    intro m n
    rw [truncate_of_nonneg (by positivity), Rat.floor_natCast_div_natCast]
    rfl
  rw [divide_fst]
  obtain ⟨m, rfl | rfl⟩ := a.eq_nat_or_neg <;> obtain ⟨n, rfl | rfl⟩ := b.eq_nat_or_neg <;>
    simp [neg_div, div_neg, truncate_neg, hnat]

/-! ### The range of quotient and remainder -/

/-- The quotient of two integers lies in the range, but for one pair of integers. -/
theorem fits_divide_fst (ha : Fits a) (hb : b ≠ 0) (h : ¬ (a = -2 ^ 31 ∧ b = -1)) :
  Fits (divide a b).1
  := by
  rw [divide_fst]
  have hsize : (a.tdiv b).natAbs = a.natAbs / b.natAbs := Int.natAbs_tdiv a b
  unfold Fits at *
  by_cases hone : b.natAbs = 1
  · -- A divisor of size one leaves the size of the dividend.
    rcases (show b = 1 ∨ b = -1 by omega) with rfl | rfl
    · rw [Int.tdiv_one]
      omega
    · rw [Int.tdiv_neg, Int.tdiv_one]
      omega
  · have hhalf : a.natAbs / b.natAbs ≤ a.natAbs / 2 := Nat.div_le_div_left (by omega) Nat.two_pos
    omega

theorem fits_divide_snd (ha : Fits a) (b : Int) :
  Fits (divide a b).2
  := by
  rw [divide_snd]
  apply fits_tmod ha

theorem abs_divide_snd_lt (a : Int) (hb : b ≠ 0) :
  |(divide a b).2| < |b|
  := by
  rw [divide_snd, ← Int.natCast_natAbs, ← Int.natCast_natAbs, Int.natAbs_tmod]
  have hlt : a.natAbs % b.natAbs < b.natAbs := Nat.mod_lt _ (Int.natAbs_pos.mpr hb)
  omega

/-- A remainder other than zero has the sign of the dividend. -/
theorem sign_divide_snd (a b : Int) :
  (divide a b).2 = 0 ∨ (divide a b).2.sign = a.sign
  := by
  rw [divide_snd]
  rcases Int.lt_trichotomy a 0 with ha | rfl | ha
  · have hsign := Int.tmod_nonneg b (Int.neg_nonneg_of_nonpos ha.le)
    rw [Int.neg_tmod] at hsign
    rcases hsign.eq_or_lt with hzero | hneg
    · left
      omega
    · right
      rw [Int.sign_eq_neg_one_of_neg ha, Int.sign_eq_neg_one_of_neg (by omega)]
  · exact .inl (Int.zero_tmod b)
  · rcases (Int.tmod_nonneg b ha.le).eq_or_lt with hzero | hpos
    · exact .inl hzero.symm
    · right
      rw [Int.sign_eq_one_of_pos ha, Int.sign_eq_one_of_pos hpos]

/-- Quotient and remainder make up the dividend, and wrapping the quotient loses nothing. -/
theorem wrap_divide (ha : Fits a) (b : Int) :
  wrap (wrap (divide a b).1 * b + (divide a b).2) = a
  := by
  have hwhole : (divide a b).1 * b + (divide a b).2 = a := by
    simp only [divide]
    omega
  have hmod : wrap (divide a b).1 * b + (divide a b).2
      ≡ (divide a b).1 * b + (divide a b).2 [ZMOD 4294967296] :=
    ((wrap_modEq _).mul_right b).add_right _
  rw [wrap_congr hmod, hwhole, wrap_of_fits ha]

/-! ### Words -/

/-- Wrapping is reading a word of 32 bits with its sign. -/
theorem wrap_eq_bmod (n : Int) :
  wrap n = n.bmod (2 ^ 32)
  := by
  unfold wrap
  rw [Int.bmod_def]
  split <;> omega

/-- An integer is what its word stands for. -/
theorem toInt_ofInt_of_fits (h : Fits a) :
  (BitVec.ofInt 32 a).toInt = a
  := by
  rw [BitVec.toInt_ofInt, ← wrap_eq_bmod, wrap_of_fits h]

theorem wrap_divide_fst_eq_sdiv (ha : Fits a) (hb : Fits b) :
  wrap (divide a b).1 = ((BitVec.ofInt 32 a).sdiv (BitVec.ofInt 32 b)).toInt
  := by
  rw [BitVec.toInt_sdiv, toInt_ofInt_of_fits ha, toInt_ofInt_of_fits hb, divide_fst, wrap_eq_bmod]

theorem divide_snd_eq_srem (ha : Fits a) (hb : Fits b) :
  (divide a b).2 = ((BitVec.ofInt 32 a).srem (BitVec.ofInt 32 b)).toInt
  := by
  rw [BitVec.toInt_srem, toInt_ofInt_of_fits ha, toInt_ofInt_of_fits hb, divide_snd]

end Arith

open Arith

namespace Eval

open Stateful

variable {limit : Nat} {pos : Option Pos} {left right : Expr} {m m₁ m₂ : Machine} {a b : Int}

/-- An operator that is not logical is applied to the values of its two operands. -/
theorem run_binary_of_ok {op : BinaryOp} (hand : op ≠ .and) (hor : op ≠ .or)
    (hl : (expression limit left).run m = .ok (.int a) m₁)
    (hr : (expression limit right).run m₁ = .ok (.int b) m₂) :
  (expression (limit + 1) (.binary pos left op right)).run m
    = (orFail pos (Value.binaryInt op a b)).run m₂
  := by
  rw [expression, run_bind_of_ok hl]
  · simp only [proceed, Value.isReturned, Bool.false_eq_true, if_false]
    rw [run_bind_of_ok hr]
    rfl
  · exact hand
  · exact hor

/-- Division is that of words of 32 bits.  If two expressions come to integers in the range, then
their quotient and their remainder fail, each with its own cause, if the divisor is zero, and
otherwise come to those of the words. -/
theorem division_of_words (hl : (expression limit left).run m = .ok (.int a) m₁)
    (hr : (expression limit right).run m₁ = .ok (.int b) m₂) (ha : Fits a) (hb : Fits b) :
  (b = 0 →
      (expression (limit + 1) (.binary pos left .div right)).run m
        = .error (.error ⟨.divisionByZero, pos⟩) m₂
      ∧ (expression (limit + 1) (.binary pos left .rem right)).run m
        = .error (.error ⟨.moduloByZero, pos⟩) m₂)
    ∧ (b ≠ 0 → ∃ q r,
      (expression (limit + 1) (.binary pos left .div right)).run m = .ok (.int q) m₂
      ∧ (expression (limit + 1) (.binary pos left .rem right)).run m = .ok (.int r) m₂
      ∧ Fits r ∧ |r| < |b| ∧ (r = 0 ∨ r.sign = a.sign)
      ∧ q = (if a = -2 ^ 31 ∧ b = -1 then -2 ^ 31 else truncate ((a : ℚ) / b))
      ∧ wrap (q * b + r) = a
      ∧ q = ((BitVec.ofInt 32 a).sdiv (BitVec.ofInt 32 b)).toInt
      ∧ r = ((BitVec.ofInt 32 a).srem (BitVec.ofInt 32 b)).toInt)
  := by
  rw [run_binary_of_ok (by decide) (by decide) hl hr,
    run_binary_of_ok (by decide) (by decide) hl hr]
  constructor
  · rintro rfl
    exact ⟨rfl, rfl⟩
  · intro hne
    have hdiv : Value.binaryInt .div a b = .ok (.int (wrap (divide a b).1)) := if_neg hne
    have hrem : Value.binaryInt .rem a b = .ok (.int (divide a b).2) := if_neg hne
    rw [hdiv, hrem]
    refine ⟨wrap (divide a b).1, (divide a b).2, rfl, rfl, fits_divide_snd ha b,
      abs_divide_snd_lt a hne, sign_divide_snd a b, ?_, wrap_divide ha b,
      wrap_divide_fst_eq_sdiv ha hb, divide_snd_eq_srem ha hb⟩
    split_ifs with hleast
    · obtain ⟨rfl, rfl⟩ := hleast
      decide
    · rw [wrap_of_fits (fits_divide_fst ha hne hleast), divide_fst_eq_truncate]

/-- The least integer divided by -1. -/
theorem division_of_words_least :
  ∃ q r, (expression 3 (.binary none (.unary none .neg (.int none 2147483648)) .div
        (.unary none .neg (.int none 1)))).run Machine.start = .ok (.int q) Machine.start
    ∧ (expression 3 (.binary none (.unary none .neg (.int none 2147483648)) .rem
        (.unary none .neg (.int none 1)))).run Machine.start = .ok (.int r) Machine.start
    ∧ q = -2 ^ 31 ∧ r = 0
  := by
  have hleft : (expression 2 (.unary none .neg (.int none 2147483648))).run Machine.start
      = .ok (.int (-2 ^ 31)) Machine.start := rfl
  have hright : (expression 2 (.unary none .neg (.int none 1))).run Machine.start
      = .ok (.int (-1)) Machine.start := rfl
  obtain ⟨q, r, hq, hr, -, hsize, -, hquotient, -⟩ :=
    (division_of_words hleft hright (by decide) (by decide)).2 (by decide)
  refine ⟨q, r, hq, hr, hquotient, ?_⟩
  rw [abs_neg, abs_one] at hsize
  apply Int.abs_lt_one_iff.mp hsize

end Eval

end ExprScript
