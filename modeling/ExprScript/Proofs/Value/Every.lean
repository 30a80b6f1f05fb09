import ExprScript.Eval.Builtin
import ExprScript.Eval.Operator
import ExprScript.Proofs.Scope

/-!
# Properties of all parts of a value

A property of integers, booleans, strings, functions, built-in functions and the unit extends
to arrays and maps: all their parts must have it, however deep.  A value on its way out of a
call is no part of a value.  If arithmetic keeps the property, so do the operators and the
built-in functions.  When they fail, it is because of the operation.
-/

namespace ExprScript

/-- Whether a source text is refused. -/
def EvalCause.isSource : EvalCause → Bool
  | .source _ => true
  | _ => false

/-- Whether an operation has failed: no source text is refused, and no `return` stands outside of
every function. -/
def EvalCause.isOperation : EvalCause → Bool
  | .source _ | .strayReturn => false
  | _ => true

theorem EvalCause.isSource_of_isOperation {cause : EvalCause} (h : cause.isOperation = true) :
  cause.isSource = false
  := by
  cases cause with
  | source e => cases h
  | _ => rfl

namespace Value

/-- All parts of a value have a property, and none of them is on its way out of a call. -/
inductive Every (A : Value → Prop) : Value → Prop
  | int {n : Int} : A (.int n) → Every A (.int n)
  | bool {b : Bool} : A (.bool b) → Every A (.bool b)
  | str {s : String} : A (.str s) → Every A (.str s)
  | fn {c : Closure} : A (.fn c) → Every A (.fn c)
  | builtin {name : String} : A (.builtin name) → Every A (.builtin name)
  | unit : A .unit → Every A .unit
  | array {serial : Serial} {vs : List Value} :
      (∀ v ∈ vs, Every A v) → Every A (.array serial vs)
  | map {serial : Serial} {es : List (String × Value)} :
      (∀ p ∈ es, Every A p.2) → Every A (.map serial es)

/-- What operators and the names of built-in functions ask of a property of parts. -/
structure Closed (A : Value → Prop) : Prop where
  unit : A .unit
  bool : ∀ b, A (.bool b)
  str : ∀ s, A (.str s)
  builtin : ∀ {name b}, Builtin.ofName? name = some b → A (.builtin name)
  wrap : ∀ n, A (.int (Arith.wrap n))
  complement : ∀ {n}, A (.int n) → A (.int (Arith.complement n))
  rem : ∀ {a b}, A (.int a) → A (.int b) → b ≠ 0 → A (.int (a.tmod b))

variable {A B : Value → Prop} {v w x : Value}

namespace Every

theorem mono (h : Every A v) (hAB : ∀ a, A a → B a) :
  Every B v
  := by
  induction h with
  | int h => exact .int (hAB _ h)
  | bool h => exact .bool (hAB _ h)
  | str h => exact .str (hAB _ h)
  | fn h => exact .fn (hAB _ h)
  | builtin h => exact .builtin (hAB _ h)
  | unit h => exact .unit (hAB _ h)
  | array _ ih => exact .array ih
  | map _ ih => exact .map ih

theorem not_returned (h : Every A v) :
  v.isReturned = false
  := by
  cases h <;> rfl

@[simp]
theorem content_eq (h : Every A v) :
  v.content = v
  := by
  cases h <;> rfl

end Every

/-! ### Operators -/

theorem every_unary (hA : Closed A) {op : UnaryOp} (hv : Every A v) (h : unary op v = .ok w) :
  Every A w
  := by
  unfold unary at h
  split at h <;> cases h
  · exact .bool (hA.bool _)
  · cases hv with
    | int hn => exact .int (hA.complement hn)
  · exact .int (hA.wrap _)

theorem every_binaryInt (hA : Closed A) {op : BinaryOp} {a b : Int} (ha : A (.int a))
    (hb : A (.int b)) (h : binaryInt op a b = .ok x) :
  Every A x
  := by
  unfold binaryInt at h
  split at h
  · cases h
    exact .bool (hA.bool _)
  · split at h
    · cases h
      exact .int (hA.wrap _)
    · cases h
      exact .int (hA.wrap _)
    · cases h
      exact .int (hA.wrap _)
    · split at h <;> cases h
      exact .int (hA.wrap _)
    · split at h
      · cases h
      · rename_i hne
        cases h
        rw [Arith.divide_snd]
        exact .int (hA.rem ha hb hne)
    · cases h

theorem every_binaryBool (hA : Closed A) {op : BinaryOp} {a b : Bool}
    (h : binaryBool op a b = .ok x) :
  Every A x
  := by
  unfold binaryBool at h
  split at h <;> cases h
  exact .bool (hA.bool _)

theorem every_binaryStr (hA : Closed A) {op : BinaryOp} {s t : String}
    (h : binaryStr op s t = .ok x) :
  Every A x
  := by
  unfold binaryStr at h
  split at h <;> cases h
  exact .str (hA.str _)

theorem every_binary (hA : Closed A) {op : BinaryOp} (hv : Every A v) (hw : Every A w)
    (h : binary op v w = .ok x) :
  Every A x
  := by
  unfold binary at h
  split at h
  · cases hv with
    | int ha =>
        cases hw with
        | int hb => apply every_binaryInt hA ha hb h
  · apply every_binaryBool hA h
  · apply every_binaryStr hA h
  · split at h <;> cases h

/-- The part of a collection at an index is a part of it. -/
theorem every_index (hv : Every A v) (h : index v w = .ok x) :
  Every A x
  := by
  unfold index at h
  split at h
  · cases hv with
    | array hvs =>
        unfold element at h
        split at h
        · cases h
        · split at h
          · rename_i y hy
            cases h
            apply hvs x (List.mem_of_getElem? hy)
          · cases h
  · cases h
  · cases hv with
    | map hes =>
        split at h
        · rename_i y hy
          cases h
          apply hes _ (Dict.mem_of_get? hy)
        · cases h
  · cases h
  · cases h

variable {cause : EvalCause}

theorem isOperation_unary {op : UnaryOp} (h : unary op v = .error cause) :
  cause.isOperation = true
  := by
  unfold unary at h
  split at h <;> cases h
  rfl

theorem isOperation_binaryInt {op : BinaryOp} {a b : Int} (h : binaryInt op a b = .error cause) :
  cause.isOperation = true
  := by
  unfold binaryInt at h
  split at h
  · cases h
  · split at h
    · cases h
    · cases h
    · cases h
    · split at h <;> cases h
      rfl
    · split at h <;> cases h
      rfl
    · cases h
      rfl

theorem isOperation_binary {op : BinaryOp} (h : binary op v w = .error cause) :
  cause.isOperation = true
  := by
  unfold binary at h
  split at h
  · apply isOperation_binaryInt h
  · unfold binaryBool at h
    split at h <;> cases h
    rfl
  · unfold binaryStr at h
    split at h <;> cases h
    rfl
  · split at h <;> cases h <;> rfl

theorem isOperation_index (h : index v w = .error cause) :
  cause.isOperation = true
  := by
  unfold index at h
  split at h
  · unfold element at h
    split at h
    · cases h
      rfl
    · split at h <;> cases h
      rfl
  · cases h
    rfl
  · split at h <;> cases h
    rfl
  · cases h
    rfl
  · cases h
    rfl

end Value

/-! ### Built-in functions -/

namespace Builtin

open Value

variable {A : Value → Prop} {args : List Value}

variable {cause : EvalCause}

theorem isOperation_length (h : length args = .error cause) :
  cause.isOperation = true
  := by
  unfold length at h
  split at h <;> cases h <;> rfl

theorem isOperation_extended (h : extended args = .error cause) :
  cause.isOperation = true
  := by
  unfold extended at h
  split at h <;> cases h <;> rfl

theorem isOperation_shortened (h : shortened args = .error cause) :
  cause.isOperation = true
  := by
  unfold shortened at h
  split at h <;> cases h <;> rfl

theorem every_length (hA : ∀ n : Nat, A (.int n)) {v : Value} (h : length args = .ok v) :
  Every A v
  := by
  unfold length at h
  split at h <;> cases h
  · exact .int (hA _)
  · exact .int (hA _)
  · exact .int (hA _)

theorem every_extended {vs : List Value} (hargs : ∀ v ∈ args, Every A v)
    (h : extended args = .ok vs) :
  ∀ v ∈ vs, Every A v
  := by
  unfold extended at h
  split at h <;> cases h
  rename_i serial vs w ws
  intro v hv
  rcases List.mem_append.mp hv with hv | hv
  · cases hargs _ List.mem_cons_self with
    | array hvs => apply hvs v hv
  · apply hargs v (List.mem_cons_of_mem _ hv)

theorem every_shortened {vs : List Value} (hargs : ∀ v ∈ args, Every A v)
    (h : shortened args = .ok vs) :
  ∀ v ∈ vs, Every A v
  := by
  unfold shortened at h
  split at h <;> cases h
  intro v hv
  cases hargs _ List.mem_cons_self with
  | array hvs => apply hvs v (List.mem_of_mem_tail hv)

end Builtin

end ExprScript
