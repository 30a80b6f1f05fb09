import Mathlib.Data.List.Forall2
import ExprScript.Eval.Builtin
import ExprScript.Eval.Operator

/-!
# Operators on related values

Operators and built-in functions look at integers, booleans and strings, at the elements of arrays
and at what stands under the keys of maps.  Of all other values they see the kind only.  So a
relation of values that keeps to this is respected: from related values an operator or a built-in
function comes to related results, or it fails for the same cause.
-/

namespace ExprScript

/-- Related results, or the same failure. -/
inductive AlikeOutcome {ε α β : Type} (R : α → β → Prop) : Except ε α → Except ε β → Prop
  | ok {a b} : R a b → AlikeOutcome R (.ok a) (.ok b)
  | error (e) : AlikeOutcome R (.error e) (.error e)

namespace Value

/-- Two values that look the same to operators and built-in functions, but for parts that are
related. -/
inductive Corresponds (R : Value → Value → Prop) : Value → Value → Prop
  | int (n : Int) : Corresponds R (.int n) (.int n)
  | bool (b : Bool) : Corresponds R (.bool b) (.bool b)
  | str (s : String) : Corresponds R (.str s) (.str s)
  | array {i j : Serial} {vs ws : List Value} : List.Forall₂ R vs ws →
      Corresponds R (.array i vs) (.array j ws)
  | map {i j : Serial} {es fs : Dict Value} : es.length = fs.length →
      (∀ name, Option.Rel R (Dict.get? es name) (Dict.get? fs name)) →
      Corresponds R (.map i es) (.map j fs)
  | fn (c d : Closure) : Corresponds R (.fn c) (.fn d)
  | builtin (m n : String) : Corresponds R (.builtin m) (.builtin n)
  | unit : Corresponds R .unit .unit
  | returned {v w : Value} : v.kind = w.kind → Corresponds R (.returned v) (.returned w)

theorem Corresponds.kind_eq {R : Value → Value → Prop} {v w : Value} (h : Corresponds R v w) :
  v.kind = w.kind
  := by
  cases h with
  | returned h => exact h
  | _ => rfl

theorem rel_getElem? {R : Value → Value → Prop} {vs ws : List Value} (h : List.Forall₂ R vs ws)
    (k : Nat) :
  Option.Rel R vs[k]? ws[k]?
  := by
  induction h generalizing k with
  | nil => exact .none
  | cons hvw _ ih =>
      cases k with
      | zero => exact .some hvw
      | succ k => exact ih k

theorem outcome_element {R : Value → Value → Prop} {vs ws : List Value}
    (h : List.Forall₂ R vs ws) (i : Int) :
  AlikeOutcome R (element vs i) (element ws i)
  := by
  have hget := rel_getElem? h i.toNat
  unfold element
  rw [h.length_eq]
  generalize vs[i.toNat]? = v at hget ⊢
  generalize ws[i.toNat]? = w at hget ⊢
  split
  · exact .error _
  · cases hget with
    | some hvw => exact .ok hvw
    | none => exact .error _

/-- A relation of values that correspond to each other, under which integers, booleans and strings
are related to themselves. -/
structure Respected (R : Value → Value → Prop) : Prop where
  corresponds : ∀ {v w}, R v w → Corresponds R v w
  int : ∀ n, R (.int n) (.int n)
  bool : ∀ b, R (.bool b) (.bool b)
  str : ∀ s, R (.str s) (.str s)

/-- The value is an integer, a boolean or a string. -/
def isScalar : Value → Bool
  | .int _ | .bool _ | .str _ => true
  | _ => false

theorem isScalar_binaryInt {op : BinaryOp} {a b : Int} {x : Value}
    (h : binaryInt op a b = .ok x) :
  x.isScalar = true
  := by
  unfold binaryInt at h
  split at h
  · cases h
    rfl
  · split at h
    case h_4 | h_5 =>
      split at h
      · cases h
      · cases h
        rfl
    all_goals
      cases h
      try rfl

theorem isScalar_binaryBool {op : BinaryOp} {a b : Bool} {x : Value}
    (h : binaryBool op a b = .ok x) :
  x.isScalar = true
  := by
  unfold binaryBool at h
  split at h
  · cases h
    rfl
  · cases h

theorem isScalar_binaryStr {op : BinaryOp} {s t : String} {x : Value}
    (h : binaryStr op s t = .ok x) :
  x.isScalar = true
  := by
  unfold binaryStr at h
  split at h
  · cases h
    rfl
  · cases h

/-- What an operator comes to between operands of two kinds that it does not combine. -/
def mismatch (op : BinaryOp) (left right : ValueKind) : Except EvalCause Value :=
  if left = right then .error (.operator op.symbol left) else .error (.operands op left right)

namespace Respected

variable {R : Value → Value → Prop} (hR : Respected R) {v w v' w' : Value}

include hR

theorem scalar (h : v.isScalar = true) :
  R v v
  := by
  cases v with
  | int n => exact hR.int n
  | bool b => exact hR.bool b
  | str s => exact hR.str s
  | _ => cases h

theorem outcome_scalar {ε : Type} {r : Except ε Value}
    (h : ∀ {x}, r = .ok x → x.isScalar = true) :
  AlikeOutcome R r r
  := by
  cases r with
  | ok x => exact .ok (hR.scalar (h rfl))
  | error e => exact .error e

/-! ### Operators -/

theorem unary (op : UnaryOp) (h : R v w) :
  AlikeOutcome R (unary op v) (unary op w)
  := by
  have hvw := hR.corresponds h
  have hkind := hvw.kind_eq
  cases hvw with
  | int n =>
      cases op with
      | not | neg => exact .ok (hR.int _)
      | _ => exact .error _
  | bool b =>
      cases op with
      | not => exact .ok (hR.bool _)
      | _ => exact .error _
  | _ =>
      simp only [Value.unary, hkind]
      exact .error _

theorem binary (op : BinaryOp) (h : R v w) (h' : R v' w') :
  AlikeOutcome R (binary op v v') (binary op w w')
  := by
  have hvw := hR.corresponds h
  have hvw' := hR.corresponds h'
  have hkind := hvw.kind_eq
  have hkind' := hvw'.kind_eq
  -- Operands that are not both integers, both booleans or both strings are told apart by kind.
  have hfails : AlikeOutcome R (mismatch op v.kind v'.kind) (mismatch op w.kind w'.kind) := by
    rw [hkind, hkind', mismatch]
    split <;> exact .error _
  cases hvw with
  | int a =>
      cases hvw' with
      | int b => exact hR.outcome_scalar isScalar_binaryInt
      | _ => exact hfails
  | bool a =>
      cases hvw' with
      | bool b => exact hR.outcome_scalar isScalar_binaryBool
      | _ => exact hfails
  | str s =>
      cases hvw' with
      | str t => exact hR.outcome_scalar isScalar_binaryStr
      | _ => exact hfails
  | _ => exact hfails

theorem index (h : R v w) (h' : R v' w') :
  AlikeOutcome R (index v v') (index w w')
  := by
  have hvw := hR.corresponds h
  have hvw' := hR.corresponds h'
  have hkind := hvw.kind_eq
  have hkind' := hvw'.kind_eq
  cases hvw with
  | array hall =>
      cases hvw' with
      | int i => exact outcome_element hall i
      | _ =>
          simp only [Value.index, hkind']
          exact .error _
  | @map _ _ es fs _ hget =>
      cases hvw' with
      | str k =>
          have hk := hget k
          simp only [Value.index]
          generalize Dict.get? es k = v at hk ⊢
          generalize Dict.get? fs k = w at hk ⊢
          cases hk with
          | some hvw => exact .ok hvw
          | none => exact .error _
      | _ =>
          simp only [Value.index, hkind']
          exact .error _
  | _ =>
      simp only [Value.index, hkind]
      exact .error _

/-! ### Built-in functions -/

variable {args args' : List Value}

theorem length (h : List.Forall₂ R args args') :
  AlikeOutcome R (Builtin.length args) (Builtin.length args')
  := by
  cases h with
  | nil => exact .error _
  | cons hvw h =>
      cases h with
      | nil =>
          have hvw := hR.corresponds hvw
          have hkind := hvw.kind_eq
          cases hvw with
          | array hall =>
              simp only [Builtin.length, hall.length_eq]
              exact .ok (hR.int _)
          | map hlength _ =>
              simp only [Builtin.length, hlength]
              exact .ok (hR.int _)
          | str s => exact .ok (hR.int _)
          | _ =>
              simp only [Builtin.length, hkind]
              exact .error _
      | cons _ h =>
          simp only [Builtin.length, List.length_cons, h.length_eq]
          exact .error _

theorem extended (h : List.Forall₂ R args args') :
  AlikeOutcome (List.Forall₂ R) (Builtin.extended args) (Builtin.extended args')
  := by
  cases h with
  | nil => exact .error _
  | cons hvw h =>
      cases h with
      | nil =>
          simp only [Builtin.extended, List.length_singleton]
          exact .error _
      | cons hvw' h =>
          have hvw := hR.corresponds hvw
          have hkind := hvw.kind_eq
          cases hvw with
          | array hall => exact .ok (List.rel_append hall (.cons hvw' h))
          | _ =>
              simp only [Builtin.extended, hkind]
              exact .error _

theorem shortened (h : List.Forall₂ R args args') :
  AlikeOutcome (List.Forall₂ R) (Builtin.shortened args) (Builtin.shortened args')
  := by
  cases h with
  | nil => exact .error _
  | cons hvw h =>
      cases h with
      | nil =>
          have hvw := hR.corresponds hvw
          have hkind := hvw.kind_eq
          cases hvw with
          | array hall =>
              have htail := List.forall₂_drop 1 hall
              rw [List.drop_one, List.drop_one] at htail
              exact .ok htail
          | _ =>
              simp only [Builtin.shortened, hkind]
              exact .error _
      | cons _ h =>
          simp only [Builtin.shortened, List.length_cons, h.length_eq]
          exact .error _

end Respected

end Value

end ExprScript
