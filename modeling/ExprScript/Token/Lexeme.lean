import ExprScript.Text.Escape
import ExprScript.Token

/-!
# Trivia and lexemes

A source text is a sequence of lexemes with trivia between them.  Trivia are blanks and
comments, which run from two slashes up to the end of the line.  A lexeme is a word, a
number, a string literal, or an operator or punctuation mark, as long as possible; any other
character is an illegal lexeme of its own.  A string literal that is not closed, or that
holds an unknown escape, is an illegal lexeme too.
-/

namespace ExprScript

/-- Whether a character separates lexemes. -/
def isSpace (c : Char) : Bool := c = ' ' || c = '\t' || c = '\r' || c = '\n'

/-- The trivia in front of a text.  The flag says whether a comment is open. -/
def trivia : Bool → List Char → List Char
  | _, [] => []
  | true, c :: cs => c :: trivia (c ≠ '\n') cs
  | false, '/' :: '/' :: cs => '/' :: '/' :: trivia true cs
  | false, c :: cs => if isSpace c then c :: trivia false cs else []

/-- Whether a character can start a word. -/
def isLetter (c : Char) : Bool := c.isAlpha || c = '_'

/-- Whether a character can continue a word. -/
def isWordChar (c : Char) : Bool := isLetter c || c.isDigit

/-- What follows an opening quote. -/
inductive StringBody where
  /-- A complete literal, with the contents it denotes. -/
  | closed (contents text : List Char)
  /-- A text up to the backslash of an unknown escape, and the text to show for it. -/
  | badEscape (text shown : List Char)
  /-- A text that ends before a closing quote. -/
  | unclosed (text : List Char)

/-- A string body with one more character in front, as it is written. -/
def StringBody.push (c : Char) (written : List Char) : StringBody → StringBody
  | .closed contents text => .closed (c :: contents) (written ++ text)
  | .badEscape text shown => .badEscape (written ++ text) (written ++ shown)
  | .unclosed text => .unclosed (written ++ text)

/-- Reads the text after an opening quote. -/
def stringBody : List Char → StringBody
  | [] => .unclosed []
  | '"' :: _ => .closed [] ['"']
  | '\\' :: [] => .badEscape ['\\'] ['\\']
  | '\\' :: l :: cs =>
    match Escape.char? l with
    | some c => (stringBody cs).push c ['\\', l]
    | none => .badEscape ['\\'] ['\\', l]
  | c :: cs => (stringBody cs).push c [c]

/-- A lexeme: its kind, its literal, and the text that it takes up. -/
structure Lexeme where
  kind : Kind
  literal : String
  text : List Char

namespace Lexeme

/-- A lexeme whose literal is its text. -/
def plain (kind : Kind) (text : List Char) : Lexeme := ⟨kind, String.ofList text, text⟩

/-- The lexeme of a word. -/
def word (text : List Char) : Lexeme := plain (Kind.ofWord (String.ofList text)) text

/-- The lexeme of an opening quote and what follows it. -/
def ofStringBody : StringBody → Lexeme
  | .closed contents text => ⟨.string, String.ofList contents, '"' :: text⟩
  | .badEscape text shown => ⟨.illegal, String.ofList ('"' :: shown), '"' :: text⟩
  | .unclosed text => plain .illegal ('"' :: text)

/-- The lexeme of an operator or punctuation mark, of two characters if possible. -/
def sign (c : Char) (cs : List Char) : Lexeme :=
  match cs with
  | [] => plain ((Kind.ofMark? c).getD .illegal) [c]
  | d :: _ =>
    match Kind.ofPair? c d with
    | some kind => plain kind [c, d]
    | none => plain ((Kind.ofMark? c).getD .illegal) [c]

/-- The lexeme at the front of a text whose first character is `c`. -/
def front (c : Char) (cs : List Char) : Lexeme :=
  if isLetter c then word (c :: cs.takeWhile isWordChar)
  else if c.isDigit then plain .int (c :: cs.takeWhile Char.isDigit)
  else if c = '"' then ofStringBody (stringBody cs)
  else sign c cs

/-- A lexeme takes up at least one character. -/
theorem front_text_ne_nil (c : Char) (cs : List Char) :
  (front c cs).text ≠ []
  := by
  unfold front word sign ofStringBody plain
  repeat' split
  all_goals simp

end Lexeme

end ExprScript
