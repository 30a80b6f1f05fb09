import ExprScript.Token

/-!
# Errors in a source text

A source text that is no program is refused with the reason and, where the reason is not
already tied to a token, the position it applies to.  `message` gives the reason in words and
`report` the reason with its position.
-/

namespace ExprScript

/-- The ways in which the shape of a source text can be wrong. -/
inductive Malformed where
  /-- A pair of parentheses with nothing in between. -/
  | emptyGroup
  /-- Something other than a comma or the end of the list after an item. -/
  | separator (close : Kind) (found : Token)
  /-- Something other than a string in the place of a key. -/
  | mapKey (found : Token)
  /-- A key that the map already holds. -/
  | duplicateKey (key : String)
  /-- Any other reason, in words. -/
  | stated (text : String)
deriving DecidableEq

/-- The reason in words. -/
def Malformed.message : Malformed → String
  | .emptyGroup => "empty grouped expression"
  | .separator close found => "expected ',' or '" ++ close.name ++ "', got " ++ found.mention
  | .mapKey found => "map keys must be strings, got " ++ found.mention
  | .duplicateKey key => "duplicate map key '" ++ key ++ "'"
  | .stated text => text

/-- The reasons to refuse a source text. -/
inductive SourceError where
  /-- No rule applies to a token. -/
  | unexpected (found : Token)
  /-- A token that cannot start the operand of the operator before it. -/
  | operand (found : Token)
  /-- A number that does not fit in 32 signed bits. -/
  | range (literal : String) (pos : Option Pos)
  /-- A wrong shape. -/
  | malformed (shape : Malformed) (pos : Option Pos)
  /-- A reason of no particular class, in words. -/
  | general (text : String) (pos : Option Pos)
  /-- No reason is known. -/
  | unknown (pos : Option Pos)
deriving DecidableEq

namespace SourceError

/-- The reason in words. -/
def message : SourceError → String
  | .unexpected t => "unexpected token " ++ t.mention
  | .operand t => "operator received an invalid operand type: " ++ t.mention
  | .range literal _ => "failed to parse '" ++ literal ++ "' as a 32-bit integer"
  | .malformed shape _ => shape.message
  | .general text _ => text
  | .unknown _ => "unknown parsing error"

/-- The position that the reason applies to. -/
def pos : SourceError → Option Pos
  | .unexpected _ | .operand _ => none
  | .range _ p | .malformed _ p | .general _ p | .unknown p => p

/-- The reason in words, and where it applies. -/
def report (e : SourceError) : String := e.message ++ Pos.note e.pos

end SourceError

end ExprScript
