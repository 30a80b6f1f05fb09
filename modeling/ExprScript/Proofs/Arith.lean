import ExprScript.Arith

/-!
# The range of integers

The integers that signed 32-bit integers stand for form a range.  Wrapping brings every integer
into it, and inverting the bits or taking a remainder does not lead out of it.
-/

namespace ExprScript.Arith

/-- The integer lies in the range of signed 32-bit integers. -/
def Fits (n : Int) : Prop := -2147483648 ≤ n ∧ n ≤ 2147483647

instance (n : Int) : Decidable (Fits n) := inferInstanceAs (Decidable (_ ∧ _))

theorem fits_wrap (n : Int) :
  Fits (wrap n)
  := by
  unfold Fits wrap
  omega

theorem fits_complement {n : Int} (h : Fits n) :
  Fits (complement n)
  := by
  unfold Fits complement at *
  omega

/-- A remainder lies between zero and the dividend. -/
theorem fits_tmod {a : Int} (h : Fits a) (b : Int) :
  Fits (a.tmod b)
  := by
  have hsize : (a.tmod b).natAbs ≤ a.natAbs := by
    rw [Int.natAbs_tmod]
    apply Nat.mod_le
  unfold Fits at *
  rcases Int.le_total 0 a with ha | ha
  · have hsign := Int.tmod_nonneg b ha
    omega
  · have hsign := Int.tmod_nonneg b (Int.neg_nonneg_of_nonpos ha)
    rw [Int.neg_tmod] at hsign
    omega

end ExprScript.Arith
