import ExprScript.Text.Decimal

/-!
# Source positions

A position is a line and a column.  A source text starts at line 1, column 1; a line feed
leads to the start of the next line, and any other character to the next column of the
same line.
-/

namespace ExprScript

/-- A place in a source text. -/
structure Pos where
  line : Int
  col : Int
deriving DecidableEq

namespace Pos

/-- Where a source text starts. -/
def start : Pos := ⟨1, 1⟩

/-- The position after one more character. -/
def step (p : Pos) (c : Char) : Pos :=
  if c = '\n' then ⟨p.line + 1, 1⟩ else ⟨p.line, p.col + 1⟩

/-- The position after a text that starts at `p`. -/
def after (p : Pos) (text : List Char) : Pos := text.foldl step p

/-- No text leads nowhere. -/
@[simp]
theorem after_nil (p : Pos) :
  p.after [] = p
  := rfl

/-- A text leads where its second part leads from the end of its first part. -/
theorem after_append (p : Pos) (s t : List Char) :
  p.after (s ++ t) = (p.after s).after t
  := by
  apply List.foldl_append

/-- The words that name a position. -/
def describe (p : Pos) : String :=
  "line " ++ Decimal.ofInt p.line ++ " col " ++ Decimal.ofInt p.col

/-- The end of a message about a position, which is empty when there is none. -/
def note : Option Pos → String
  | none => ""
  | some p => " at " ++ p.describe

end Pos

end ExprScript
