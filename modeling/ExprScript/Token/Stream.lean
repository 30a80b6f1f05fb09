import ExprScript.Token

/-!
# Token streams

A token stream holds the tokens that are still to be read, and the token that marks the end
of input.  The end token is never used up: a stream that has come to its end yields it
forever.
-/

namespace ExprScript

/-- The tokens ahead, and the token after the last of them. -/
structure TokenStream where
  ahead : List Token
  last : Token
deriving DecidableEq

namespace TokenStream

/-- The token that comes next. -/
def head (s : TokenStream) : Token := s.ahead.headD s.last

/-- The stream after its next token. -/
def tail (s : TokenStream) : TokenStream := { s with ahead := s.ahead.tail }

/-- The token after the next one. -/
def second (s : TokenStream) : Token := s.tail.head

/-- The stream with one more token in front. -/
def push (t : Token) (s : TokenStream) : TokenStream := { s with ahead := t :: s.ahead }

/-- All tokens of the stream, up to and including the first end of input. -/
def tokens (s : TokenStream) : List Token := s.ahead ++ [s.last]

/-- The number of tokens before the end of input. -/
def left (s : TokenStream) : Nat := s.ahead.length

/-- One more entry than there are tokens before the end of input, as a bound for readers that
take at least one token at a time. -/
def bound (s : TokenStream) : List Token := s.last :: s.ahead

@[simp]
theorem length_bound (s : TokenStream) :
  s.bound.length = s.left + 1
  := rfl

@[simp]
theorem head_push (t : Token) (s : TokenStream) :
  (s.push t).head = t
  := rfl

@[simp]
theorem tail_push (t : Token) (s : TokenStream) :
  (s.push t).tail = s
  := rfl

@[simp]
theorem left_push (t : Token) (s : TokenStream) :
  (s.push t).left = s.left + 1
  := rfl

end TokenStream

end ExprScript
