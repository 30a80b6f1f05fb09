/-!
# The limit on nesting

Reading, evaluating and showing are bounded by a limit on how deeply things may be nested.
-/

namespace ExprScript

/-- The limit that commands run with. -/
def nestingLimit : Nat := 1000

end ExprScript
