import ExprScript.Tree

/-!
# Values

The values of the language are integers, booleans, strings, arrays, maps, functions,
built-in functions and the unit.  A function is a closure: parameters and a body together
with the scope it was made in.  Arrays, maps and functions carry a serial number, given when
they are made: a value keeps it wherever it is stored or passed on, and no other value made in
the same evaluation has it.  A `returned` value marks the value of a `return` that is on its
way out of a call.
-/

namespace ExprScript

/-- The number of a scope. -/
abbrev ScopeId := Nat

/-- The number of an array, a map or a function in the order in which they are made. -/
abbrev Serial := Nat

/-- A function body with the scope it was made in. -/
structure Closure where
  serial : Serial
  parameters : List String
  body : Stmt
  scope : ScopeId

/-- A value. -/
inductive Value where
  | int (n : Int)
  | bool (b : Bool)
  | str (s : String)
  | array (serial : Serial) (elements : List Value)
  | map (serial : Serial) (entries : List (String × Value))
  | fn (closure : Closure)
  | builtin (name : String)
  | unit
  | returned (value : Value)

/-- The kinds of values. -/
inductive ValueKind where
  | integer | boolean | string | array | map | function | builtin | unit
deriving DecidableEq

/-- The name of a kind of values. -/
def ValueKind.name : ValueKind → String
  | .integer => "integer"
  | .boolean => "boolean"
  | .string => "string"
  | .array => "array"
  | .map => "map"
  | .function => "function"
  | .builtin => "builtin"
  | .unit => "unit"

namespace Value

/-- The kind of a value; a returned value has the kind of its content. -/
def kind : Value → ValueKind
  | .int _ => .integer
  | .bool _ => .boolean
  | .str _ => .string
  | .array _ _ => .array
  | .map _ _ => .map
  | .fn _ => .function
  | .builtin _ => .builtin
  | .unit => .unit
  | .returned v => v.kind

/-- Whether a value is on its way out of a call. -/
def isReturned : Value → Bool
  | .returned _ => true
  | _ => false

/-- The content of a returned value; any other value stays as it is. -/
def content : Value → Value
  | .returned v => v
  | v => v

end Value

end ExprScript
