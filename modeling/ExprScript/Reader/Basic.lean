import ExprScript.Reader.Error
import ExprScript.Token.Stream

/-!
# Readers of token streams

A reader takes tokens off a stream and yields a result or a failure, and in either case
leaves the stream where it stopped.  Readers that repeat another one are bounded by the list
of the tokens ahead, which every repetition makes shorter.
-/

namespace ExprScript

/-- Why reading stopped. -/
inductive ReadFailure where
  /-- The source text is refused. -/
  | refused (e : SourceError)
  /-- A number has more digits than are ever read. -/
  | oversized
  /-- The source text is nested beyond the limit. -/
  | exhausted
deriving DecidableEq

/-- A reader of a token stream. -/
abbrev Reader (α : Type) := EStateM ReadFailure TokenStream α

namespace Reader

variable {α : Type}

/-- Stops because the limit is used up. -/
def exhausted : Reader α := throw .exhausted

/-- Refuses the source text. -/
def refuse (e : SourceError) : Reader α := throw (.refused e)

/-- The next token, which stays in the stream. -/
def next : Reader Token := do
  return (← get).head

/-- The token after the next one; both stay in the stream. -/
def afterNext : Reader Token := do
  return (← get).second

/-- Takes the next token off the stream. -/
def take : Reader Token :=
  modifyGet fun s => (s.head, s.tail)

/-- Whether the next token is of a given kind. -/
def nextIs (kind : Kind) : Reader Bool := do
  return (← next).kind = kind

/-- Refuses the next token. -/
def unexpected : Reader α := do
  refuse (.unexpected (← next))

/-- Refuses the source text for its shape at the next token. -/
def malformed (shape : Token → Malformed) : Reader α := do
  let t ← next
  refuse (.malformed (shape t) (some t.pos))

/-- Takes the next token off the stream if it is of a given kind, and refuses it otherwise. -/
def require (kind : Kind) : Reader Token := do
  if ← nextIs kind then take else unexpected

/-- Takes the next token off the stream if it is of a given kind. -/
def skip (kind : Kind) : Reader Unit := do
  if ← nextIs kind then
    let _ ← take
    return ()
  else return ()

/-- Reads items up to a closing token, at most as many as the bound allows. -/
def upToIn (close : Kind) (item : Reader α) : List Token → Reader (List α)
  | [] => exhausted
  | _ :: bound => do
    if ← nextIs close then return []
    else if ← nextIs .eof then unexpected
    else
      let a ← item
      let rest ← upToIn close item bound
      return a :: rest

/-- Reads items up to a closing token, which stays in the stream. -/
def upTo (close : Kind) (item : Reader α) : Reader (List α) := do
  upToIn close item (← get).bound

/-- Reads items with commas in between, at most as many as the bound allows.  The items read
so far, the last one first, are known to the reader of the next item. -/
def listIn (close : Kind) (item : List α → Reader α) : List Token → List α → Reader (List α)
  | [], _ => exhausted
  | _ :: bound, done => do
    if ← nextIs close then return done.reverse
    else
      let a ← item done
      if ← nextIs .comma then
        let _ ← take
        listIn close item bound (a :: done)
      else if ← nextIs close then return (a :: done).reverse
      else malformed (.separator close)

/-- Reads items with commas in between and the closing token after them.  A comma may follow
the last item. -/
def list (close : Kind) (item : List α → Reader α) : Reader (List α) := do
  let items ← listIn close item (← get).bound []
  let _ ← require close
  return items

end Reader

end ExprScript
