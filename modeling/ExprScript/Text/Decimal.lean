/-!
# Decimal numerals

Numbers are written in base ten without leading zeros, a negative number with a minus
sign in front.  A run of digits is read as the number it denotes, whatever its length.
-/

namespace ExprScript.Decimal

/-- The numeral of a natural number. -/
def ofNat (n : Nat) : String := String.ofList (Nat.toDigits 10 n)

/-- The numeral of an integer. -/
def ofInt : Int → String
  | .ofNat n => ofNat n
  | .negSucc n => "-" ++ ofNat (n + 1)

/-- The number a run of digits denotes. -/
def value (digits : String) : Nat := Nat.ofDigitChars 10 digits.toList 0

/-- Reading the numeral of a number gives the number back. -/
@[simp]
theorem value_ofNat (n : Nat) :
  value (ofNat n) = n
  := by
  rw [value, ofNat, String.toList_ofList]
  apply Nat.ofDigitChars_toDigits
  · decide
  · decide

end ExprScript.Decimal
