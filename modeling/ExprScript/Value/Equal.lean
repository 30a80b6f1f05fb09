import ExprScript.Value
import ExprScript.Verdict

/-!
# Equality of values

Values of different variants are never equal.  Data is equal when it has equal parts, maps
without regard to the order of their entries; a function is equal to itself only, a built-in
function to the one of its name, and a returned value to another with equal content.  `same`
says so outright.  `sameWithin` compares parts from left to right and goes only so far down; an
array or a map is equal to itself without a look at its parts, and its serial number tells.
-/

namespace ExprScript

mutual

/-- Whether two values are equal. -/
def Value.same : Value → Value → Bool
  | .int m, .int n => m = n
  | .bool a, .bool b => a = b
  | .str s, .str t => s = t
  | .array _ vs, .array _ ws => Value.sameAll vs ws
  | .map _ es, .map _ fs => es.length = fs.length && Value.sameEntries es fs
  | .fn c, .fn d => c.serial = d.serial
  | .builtin m, .builtin n => m = n
  | .unit, .unit => true
  | .returned v, .returned w => v.same w
  | _, _ => false

/-- Whether two lists of values are equal element by element. -/
def Value.sameAll : List Value → List Value → Bool
  | [], [] => true
  | v :: vs, w :: ws => v.same w && Value.sameAll vs ws
  | _, _ => false

/-- Whether every entry of the first map has an equal one under the same key in the second. -/
def Value.sameEntries : List (String × Value) → List (String × Value) → Bool
  | [], _ => true
  | (k, v) :: es, fs =>
    (match Dict.get? fs k with
      | some w => v.same w
      | none => false)
    && Value.sameEntries es fs

end

/-- Compares two values within a limit. -/
def Value.sameWithin : Nat → Value → Value → Verdict
  | 0, _, _ => .undecided
  | limit + 1, v, w =>
    match v, w with
    | .array i vs, .array j ws =>
      if i = j then .equal else Verdict.lists (Value.sameWithin limit) vs ws
    | .map i es, .map j fs =>
      if i = j then .equal else Verdict.dicts (Value.sameWithin limit) es fs
    | .returned v, .returned w => v.sameWithin limit w
    | v, w => .ofBool (v.same w)

end ExprScript
