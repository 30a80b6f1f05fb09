import ExprScript.Token.Lexeme
import ExprScript.Token.Stream

/-!
# Cursors in a source text

A cursor stands somewhere in a source text.  It knows the text that remains, how many
characters lie behind it, and its line and column.  `next` skips the trivia at the cursor
and reads one token; `stream` reads all tokens up to the end of the text.
-/

namespace ExprScript

/-- A place in a source text together with the text that remains. -/
structure Cursor where
  rest : List Char
  offset : Nat
  pos : Pos
deriving DecidableEq

namespace Cursor

/-- The cursor at the start of a source text. -/
def start (source : String) : Cursor := ⟨source.toList, 0, Pos.start⟩

/-- The cursor after a text that lies in front of it. -/
def skip (c : Cursor) (text : List Char) : Cursor :=
  ⟨c.rest.drop text.length, c.offset + text.length, c.pos.after text⟩

/-- The cursor after the trivia in front of it. -/
def skipTrivia (c : Cursor) : Cursor := c.skip (trivia false c.rest)

/-- The next token, and the cursor behind it.  At the end of the text this is the end of
input, which the cursor does not move beyond. -/
def next (c : Cursor) : Token × Cursor :=
  let s := c.skipTrivia
  match s.rest with
  | [] => (⟨.eof, "", s.pos⟩, s)
  | x :: xs =>
    let l := Lexeme.front x xs
    (⟨l.kind, l.literal, s.pos⟩, s.skip l.text)

/-- Skipping a text takes its length off what remains. -/
@[simp]
theorem length_rest_skip (c : Cursor) (text : List Char) :
  (c.skip text).rest.length = c.rest.length - text.length
  := List.length_drop

/-- Reading a token other than the end of input leaves less text. -/
theorem length_rest_next_lt (c : Cursor) (h : c.next.1.kind ≠ .eof) :
  c.next.2.rest.length < c.rest.length
  := by
  unfold next at h ⊢
  simp only at h ⊢
  split at h
  · simp at h
  · rename_i x xs e
    have hs : c.skipTrivia.rest.length ≤ c.rest.length := by
      simp [skipTrivia]
    have ht : 0 < (Lexeme.front x xs).text.length :=
      List.length_pos_iff.mpr (Lexeme.front_text_ne_nil x xs)
    rw [e] at hs
    simp only [length_rest_skip, e, List.length_cons] at hs ⊢
    omega

/-- The tokens from the cursor to the end of the text. -/
def stream (c : Cursor) : TokenStream :=
  if c.next.1.kind = .eof then ⟨[], c.next.1⟩
  else c.next.2.stream.push c.next.1
termination_by c.rest.length
decreasing_by
  apply length_rest_next_lt
  assumption

/-- The first tokens from the cursor, each with the cursor behind it; the end of input
repeats as often as asked for. -/
def steps : Nat → Cursor → List (Token × Cursor)
  | 0, _ => []
  | n + 1, c => c.next :: steps n c.next.2

end Cursor

/-- The token stream of a source text. -/
def TokenStream.ofSource (source : String) : TokenStream := (Cursor.start source).stream

/-- The tokens of a source text, up to and including the end of input. -/
def tokensOf (source : String) : List Token := (TokenStream.ofSource source).tokens

end ExprScript
