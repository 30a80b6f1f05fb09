import ExprScript.Dict

/-!
# Verdicts

Whether two things are equal is found out within a limit on how deeply they may be nested, so
the verdict is that they are equal, that they are different, or that it is left open.  The
parts of things are compared in order, and the first part that is not equal decides: nothing
after it is looked at.  Lists and dictionaries of different sizes are different whatever they
hold.
-/

namespace ExprScript

/-- What a comparison within a limit comes to. -/
inductive Verdict where
  | equal
  | different
  /-- The limit was passed before a difference was found. -/
  | undecided
deriving DecidableEq

namespace Verdict

variable {α : Type}

/-- The verdict of a comparison that needs no limit. -/
def ofBool (b : Bool) : Verdict := if b then .equal else .different

/-- The verdict on two parts, the second of which is looked at only if the first is equal. -/
@[macro_inline]
def both (first second : Verdict) : Verdict :=
  match first with
  | .equal => second
  | .different => .different
  | .undecided => .undecided

/-- The verdict on the items of two lists, one after the other. -/
def each (compared : α → α → Verdict) : List α → List α → Verdict
  | [], [] => .equal
  | a :: as, b :: bs => both (compared a b) (each compared as bs)
  | _, _ => .different

/-- The verdict on two lists. -/
def lists (compared : α → α → Verdict) (as bs : List α) : Verdict :=
  both (ofBool (as.length = bs.length)) (each compared as bs)

/-- The verdict on the entries of a dictionary and those under the same names in another. -/
def entries (compared : α → α → Verdict) : Dict α → Dict α → Verdict
  | [], _ => .equal
  | (k, a) :: d, e =>
    both
      (match Dict.get? e k with
        | some b => compared a b
        | none => .different)
      (entries compared d e)

/-- The verdict on two dictionaries, the order of their entries aside. -/
def dicts (compared : α → α → Verdict) (d e : Dict α) : Verdict :=
  both (ofBool (d.length = e.length)) (entries compared d e)

end Verdict

end ExprScript
