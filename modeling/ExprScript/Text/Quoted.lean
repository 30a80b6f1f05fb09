import ExprScript.Text.Printable

/-!
# Texts shown between quotes

A text is shown on one line between quotes: single quotes, unless the text holds a single
quote and no double quote.  The backslash and the quote in use get a backslash in front,
line feed, carriage return and tab a letter, and any other character that is not printable
is shown by its code point in hexadecimal digits, as few as its range allows among two,
four and eight.
-/

namespace ExprScript.Quoted

/-- The quote that a text is shown with. -/
def mark (text : List Char) : Char :=
  if text.contains '\x27' && !text.contains '"' then '"' else '\x27'

/-- The last `width` hexadecimal digits of a number. -/
def hex (width n : Nat) : List Char :=
  let digits := Nat.toDigits 16 n
  List.replicate (width - digits.length) '0' ++ digits

/-- How a code point is shown by its number. -/
def numbered (n : Nat) : List Char :=
  if n < 0x100 then '\\' :: 'x' :: hex 2 n
  else if n < 0x10000 then '\\' :: 'u' :: hex 4 n
  else '\\' :: 'U' :: hex 8 n

/-- How one character is shown between quotes `q`. -/
def shown (q c : Char) : List Char :=
  if c = '\\' ∨ c = q then ['\\', c]
  else if c = '\n' then ['\\', 'n']
  else if c = '\r' then ['\\', 'r']
  else if c = '\t' then ['\\', 't']
  else if Printable.isPrintable c then [c]
  else numbered c.toNat

/-- A text between quotes. -/
def quote (s : String) : String :=
  let text := s.toList
  let q := mark text
  String.ofList (q :: (text.flatMap (shown q) ++ [q]))

end ExprScript.Quoted
