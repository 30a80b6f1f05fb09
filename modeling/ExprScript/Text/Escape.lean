/-!
# Escapes in string literals

A string literal stands between double quotes.  Inside it the backslash, the double quote,
the line feed, the carriage return and the tab have a written form of two characters, a
backslash and a letter.  `letter?` gives the letter of a character that has one, `char?`
the character a letter stands for, and `quote` writes a whole literal.
-/

namespace ExprScript.Escape

/-- The letter that stands for a character after a backslash, if the character has one. -/
def letter? : Char → Option Char
  | '\\' => some '\\'
  | '"' => some '"'
  | '\n' => some 'n'
  | '\r' => some 'r'
  | '\t' => some 't'
  | _ => none

/-- The character a letter after a backslash stands for, if the escape is known. -/
def char? : Char → Option Char
  | 'n' => some '\n'
  | 'r' => some '\r'
  | 't' => some '\t'
  | '\\' => some '\\'
  | '"' => some '"'
  | _ => none

/-- The written form of one character. -/
def written (c : Char) : List Char :=
  match letter? c with
  | some l => ['\\', l]
  | none => [c]

/-- The written form of a text, without the quotes around it. -/
def encode (text : List Char) : List Char := text.flatMap written

/-- The string literal that denotes `s`. -/
def quote (s : String) : String :=
  String.ofList ('"' :: (encode s.toList ++ ['"']))

/-- The two tables agree: a letter is read back as the character it was written for. -/
theorem char?_of_letter? {c l : Char} (h : letter? c = some l) :
  char? l = some c
  := by
  unfold letter? at h
  split at h <;> simp at h <;> subst h <;> rfl

/-- The two tables agree: a character is written with the letter it was read from. -/
theorem letter?_of_char? {c l : Char} (h : char? l = some c) :
  letter? c = some l
  := by
  unfold char? at h
  split at h <;> simp at h <;> subst h <;> rfl

/-- A text is written piece by piece. -/
@[simp]
theorem encode_cons (c : Char) (s : List Char) :
  encode (c :: s) = written c ++ encode s
  := rfl

end ExprScript.Escape
