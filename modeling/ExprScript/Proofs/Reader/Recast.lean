import ExprScript.Proofs.Token.Scan
import ExprScript.Reader.Basic

/-!
# Tokens and refusals with other positions

A token is recast by changing its position, and a refusal by changing that of every token it
speaks of and its own.  Recasting to one and the same position leaves the form of a token only.
-/

namespace ExprScript

section

variable (place : Pos → Pos)

/-- The token with another position. -/
def Token.recast (t : Token) : Token := { t with pos := place t.pos }

/-- The shape with other positions. -/
def Malformed.recast : Malformed → Malformed
  | .separator close found => .separator close (found.recast place)
  | .mapKey found => .mapKey (found.recast place)
  | shape => shape

/-- The reason with other positions. -/
def SourceError.recast : SourceError → SourceError
  | .unexpected found => .unexpected (found.recast place)
  | .operand found => .operand (found.recast place)
  | .range literal pos => .range literal (pos.map place)
  | .malformed shape pos => .malformed (shape.recast place) (pos.map place)
  | .general text pos => .general text (pos.map place)
  | .unknown pos => .unknown (pos.map place)

/-- The failure with other positions. -/
def ReadFailure.recast : ReadFailure → ReadFailure
  | .refused e => .refused (e.recast place)
  | failure => failure

end

namespace Token

variable {place : Pos → Pos} {t t' : Token}

theorem kind_of_recast (h : t.recast place = t'.recast place) :
  t.kind = t'.kind
  := by
  apply congrArg kind h

theorem literal_of_recast (h : t.recast place = t'.recast place) :
  t.literal = t'.literal
  := by
  apply congrArg literal h

theorem pos_of_recast (h : t.recast place = t'.recast place) :
  place t.pos = place t'.pos
  := by
  apply congrArg pos h

/-- Tokens of one form are the same but for their positions. -/
theorem recast_of_form {p : Pos} (h : t.form = t'.form) :
  t.recast (fun _ => p) = t'.recast fun _ => p
  := by
  obtain ⟨kind, literal, pos⟩ := t
  cases h
  rfl

theorem recast_id (t : Token) :
  t.recast id = t
  := rfl

end Token

/-- With its positions a failure is itself. -/
theorem ReadFailure.recast_id (e : ReadFailure) :
  e.recast id = e
  := by
  have hshape : ∀ shape : Malformed, shape.recast id = shape := by
    intro shape
    cases shape <;> rfl
  cases e with
  | refused e =>
      apply congrArg refused
      cases e with
      | unexpected | operand => rfl
      | range | general | unknown => simp only [SourceError.recast, Option.map_id, id]
      | malformed shape => simp only [SourceError.recast, hshape, Option.map_id, id]
  | oversized | exhausted => rfl

end ExprScript
