/-!
# Blank characters and lines

A character is blank when it is white space or a line or paragraph separator.  Trimming a
text removes the blank characters at its two ends.  A text is cut into lines after each
line feed, which stays with the line that it ends.
-/

namespace ExprScript.Blank

/-- The ranges of code points of blank characters. -/
def ranges : List (Nat × Nat) :=
  [(0x09, 0x0d), (0x1c, 0x20), (0x85, 0x85), (0xa0, 0xa0), (0x1680, 0x1680),
    (0x2000, 0x200a), (0x2028, 0x2029), (0x202f, 0x202f), (0x205f, 0x205f),
    (0x3000, 0x3000)]

/-- Whether a character is blank. -/
def isBlank (c : Char) : Bool :=
  ranges.any fun r => decide (r.1 ≤ c.toNat ∧ c.toNat ≤ r.2)

/-- The text without the blank characters at its two ends. -/
def trim (text : List Char) : List Char :=
  ((text.dropWhile isBlank).reverse.dropWhile isBlank).reverse

/-- The lines of a text, each with the line feed that ends it. -/
def lines : List Char → List (List Char)
  | [] => []
  | c :: cs =>
    if c = '\n' then [c] :: lines cs
    else
      match lines cs with
      | [] => [[c]]
      | l :: ls => (c :: l) :: ls

/-- Every white space character of ASCII is blank. -/
theorem isBlank_of_isWhitespace {c : Char} (h : c.isWhitespace) :
  isBlank c
  := by
  simp only [Char.isWhitespace, Bool.or_eq_true, decide_eq_true_eq] at h
  rcases h with ((h | h) | h) | h <;> subst h <;> decide

/-- The lines of a text, put together, are the text. -/
theorem flatten_lines (text : List Char) :
  (lines text).flatten = text
  := by
  induction text with
  | nil => rfl
  | cons c cs ih =>
      unfold lines
      split
      · rw [List.flatten_cons, ih]
        rfl
      · split
        · rename_i h
          rw [h] at ih
          simp [← ih]
        · rename_i h
          rw [h] at ih
          simp [← ih]

end ExprScript.Blank
