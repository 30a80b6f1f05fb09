import ExprScript.Proofs.Eval.Checked
import ExprScript.Proofs.Eval.Enter

/-!
# There are no lapses

Every operation with checks comes to the same as the operation, whatever it is applied to.  Doing
what takes nothing for granted goes along with putting evaluations together, so evaluation with
checks is evaluation, by induction on the limit.
-/

namespace ExprScript.Checked

open Stateful

variable {α β : Type}

/-! ### Sequences -/

theorem lift_pure (a : α) :
  lift (pure a) = pure a
  := rfl

theorem lift_fail (cause : EvalCause) (pos : Option Pos) :
  lift (Eval.fail cause pos : Eval α) = fail cause pos
  := rfl

theorem lift_get :
  lift get = get
  := rfl

theorem lift_bind (x : Eval α) (f : α → Eval β) :
  lift (x >>= f) = lift x >>= fun a => lift (f a)
  := by
  funext m
  have hlift : (lift x).run m = lift x m := rfl
  have hbind : (lift x >>= fun a => lift (f a)) m
      = (lift x >>= fun a => lift (f a)).run m := rfl
  rw [hbind, EStateM.run_bind, hlift, lift, lift, EStateM.run_bind]
  cases x.run m <;> rfl

theorem lift_ite (p : Prop) [Decidable p] (x y : Eval α) :
  lift (if p then x else y) = if p then lift x else lift y
  := by
  split <;> rfl

/-! ### Operators -/

theorem compares_eq (op : BinaryOp) :
  op.compares = op.comparison?.isSome
  := by
  cases op <;> rfl

theorem compared_int {op : BinaryOp} {holds : Ordering → Bool} (h : op.comparison? = some holds)
    (a b : Int) :
  compared op a b = pure (holds (compare a b))
  := by
  have hcompare : compare a b = if a < b then .lt else if a = b then .eq else .gt := rfl
  rw [hcompare]
  rcases Int.lt_trichotomy a b with hab | rfl | hab
  · have hne : a ≠ b := by omega
    have hge : ¬ b ≤ a := by omega
    have hgt : ¬ b < a := by omega
    cases op <;> cases h <;> simp [compared, hab, hne, hge, hgt, Int.le_of_lt]
  · cases op <;> cases h <;> simp [compared]
  · have hne : a ≠ b := by omega
    have hle : ¬ a ≤ b := by omega
    have hlt : ¬ a < b := by omega
    cases op <;> cases h <;> simp [compared, hab, hne, hle, hlt, Int.le_of_lt]

theorem compared_bool {op : BinaryOp} {holds : Ordering → Bool} (h : op.comparison? = some holds)
    (a b : Bool) :
  compared op a b = pure (holds (compare a b))
  := by
  cases op <;> cases h <;> cases a <;> cases b <;> rfl

/-- A divisor that is not zero has a quotient and a remainder. -/
theorem quotient_eq {a b : Int} (hb : b ≠ 0) :
  quotient a b = pure (Arith.divide a b)
  := by
  rw [quotient, if_neg (by omega)]
  rfl

theorem binary_int (pos : Option Pos) (op : BinaryOp) (a b : Int) :
  binary pos op (.int a) (.int b) = lift (Eval.orFail pos (Value.binaryInt op a b))
  := by
  cases hop : op.comparison? with
  | some holds =>
      have hcompares : op.compares = true := by rw [compares_eq, hop, Option.isSome_some]
      unfold binary Value.binaryInt
      simp only [hcompares, if_true, compared_int hop, pure_bind, hop]
      rfl
  | none =>
      cases op with
      | div | rem =>
          unfold binary Value.binaryInt
          by_cases hb : b = 0
          · simp only [hb, if_true]
            rfl
          · simp only [hb, if_false, quotient_eq hb, pure_bind]
            rfl
      | eq | ne | lt | le | gt | ge => cases hop
      | _ => rfl

theorem binary_bool (pos : Option Pos) (op : BinaryOp) (a b : Bool) :
  binary pos op (.bool a) (.bool b) = lift (Eval.orFail pos (Value.binaryBool op a b))
  := by
  unfold binary Value.binaryBool
  cases hop : op.comparison? with
  | some holds =>
      have hcompares : op.compares = true := by rw [compares_eq, hop, Option.isSome_some]
      simp only [hcompares, if_true, compared_bool hop, pure_bind]
      rfl
  | none =>
      have hcompares : op.compares = false := by rw [compares_eq, hop, Option.isSome_none]
      simp only [hcompares, Bool.false_eq_true, if_false]
      rfl

/-- Applying an operator to two operands does not lapse. -/
theorem binary_eq (pos : Option Pos) (op : BinaryOp) (v w : Value) :
  binary pos op v w = lift (Eval.orFail pos (Value.binary op v w))
  := by
  unfold binary
  split
  · apply binary_int
  · apply binary_bool
  · rfl

/-! ### Collections and names -/

theorem element_eq {vs : List Value} {i : Int} (h₀ : 0 ≤ i) {v : Value}
    (h : vs[i.toNat]? = some v) :
  element vs i = pure v
  := by
  rw [element]
  simp only [if_neg (Int.not_lt.mpr h₀), if_pos h₀, h]

/-- Indexing a collection does not lapse. -/
theorem index_eq (pos : Option Pos) (v w : Value) :
  index pos v w = lift (Eval.orFail pos (Value.index v w))
  := by
  unfold index
  split
  · rename_i serial vs i
    rw [Value.index, Value.element]
    by_cases hneg : i < 0
    · simp only [hneg, true_or, if_true]
      rfl
    · have hpos : 0 ≤ i := Int.not_lt.mp hneg
      by_cases hlen : (vs.length : Int) ≤ i
      · have hnone : vs[i.toNat]? = none := List.getElem?_eq_none (by omega)
        simp only [hneg, hlen, or_true, if_true, if_false, hnone]
        rfl
      · have hsome : vs[i.toNat]? = some (vs.get ⟨i.toNat, by omega⟩) :=
          List.getElem?_eq_getElem (by omega)
        simp only [hneg, hlen, or_false, if_false, hsome, element_eq hpos hsome]
        rfl
  · rename_i serial es k
    rw [Value.index]
    cases hget : Dict.get? es k with
    | some v =>
        have hmem : k ∈ Dict.names es := by
          rw [Dict.mem_names_iff, hget]
          rfl
        rw [if_pos hmem, entry, hget]
        rfl
    | none =>
        have hmem : k ∉ Dict.names es := by
          rw [Dict.mem_names_iff, hget]
          exact Bool.false_ne_true
        rw [if_neg hmem]
        rfl
  · rfl

/-- Looking up a name does not lapse: that it is bound nowhere is caught. -/
theorem name_eq (pos : Option Pos) (n : String) :
  name pos n = lift (Eval.name pos n)
  := by
  funext m
  have hrun : name pos n m = (tryCatch (bound n) (unbound pos n)).run m := rfl
  have hlookup : (Eval.lookup? n).run m = .ok (m.heap.get? m.cursor n) m := rfl
  have hlift : (lift (Eval.lookup? n)).run m = .ok (m.heap.get? m.cursor n) m := rfl
  rw [hrun, lift, Eval.name, run_bind_of_ok hlookup]
  cases hget : m.heap.get? m.cursor n with
  | some v =>
      rw [hget] at hlift
      apply run_tryCatch_of_ok
      rw [bound, run_bind_of_ok hlift]
      rfl
  | none =>
      rw [hget] at hlift
      have hbound : (bound n).run m = .error (.lapse (.unbound n)) m := by
        rw [bound, run_bind_of_ok hlift]
        rfl
      rw [run_tryCatch_of_error hbound, unbound]
      cases Builtin.ofName? n <;> rfl

/-- Calling a built-in function does not lapse. -/
theorem call_eq (pos : Option Pos) (limit : Nat) (args : List Value) (b : Builtin) :
  call pos limit args b = lift (b.call limit pos args)
  := by
  cases b with
  | len =>
      match args with
      | [] => rfl
      | [v] => cases v <;> rfl
      | v :: w :: args =>
          rw [call, if_pos (by simp)]
          cases v <;> rfl
  | append =>
      match args with
      | [] => rfl
      | [v] => cases v <;> rfl
      | v :: w :: args =>
          rw [call, if_neg (by simp only [List.length_cons]; omega)]
          cases v <;> rfl
  | rest =>
      match args with
      | [] => rfl
      | [v] => cases v <;> rfl
      | v :: w :: args =>
          rw [call, if_pos (by simp)]
          cases v <;> rfl
  | print | println => rfl

/-! ### Ways of putting evaluations together -/

section

variable {eval : Expr → Eval Value} {run : Stmt → Eval Value}

theorem proceed_lift (v : Value) (next : Value → Eval Value) :
  proceed v (fun w => lift (next w)) = lift (Eval.proceed v next)
  := by
  rw [Eval.proceed, lift_ite]
  rfl

theorem bind_proceed_lift (x : Eval Value) (next : Value → Eval Value) :
  (lift x >>= fun v => proceed v fun w => lift (next w))
    = lift (x >>= fun v => Eval.proceed v next)
  := by
  simp only [lift_bind, proceed_lift]

theorem gather_lift (es : List Expr) :
  gather (fun e => lift (eval e)) es = lift (Eval.gather eval es)
  := by
  induction es with
  | nil => rfl
  | cons e es ih =>
      rw [gather, Eval.gather, lift_bind, ih]
      congr 1
      funext v
      rw [lift_ite, lift_bind]
      congr 2
      funext g
      cases g <;> rfl

theorem withAll_lift (es : List Expr) (next : List Value → Eval Value) :
  withAll (fun e => lift (eval e)) es (fun vs => lift (next vs))
    = lift (Eval.withAll eval es next)
  := by
  rw [withAll, Eval.withAll, lift_bind, gather_lift]
  congr 1
  funext g
  cases g <;> rfl

/-- Two expressions have two values. -/
theorem withAll_pair (left right : Expr) {next : Value → Value → Eval Value}
    {next' : Value → Value → Checked Value} (h : ∀ v w, next' v w = lift (next v w)) :
  withAll (fun e => lift (eval e)) [left, right] (pair next')
    = lift (do
        Eval.proceed (← eval left) fun v => do
          Eval.proceed (← eval right) fun w => next v w)
  := by
  rw [withAll, gather, lift_bind, bind_assoc]
  congr 1
  funext v
  rw [Eval.proceed]
  cases v.isReturned with
  | true => rfl
  | false =>
      simp only [Bool.false_eq_true, if_false, gather, lift_bind, bind_assoc]
      congr 1
      funext w
      rw [Eval.proceed]
      cases w.isReturned with
      | true => rfl
      | false => apply h

theorem runAll_lift (last : Value) (ss : List Stmt) :
  runAll (fun s => lift (run s)) last ss = lift (Eval.runAll run last ss)
  := by
  induction ss generalizing last with
  | nil => rfl
  | cons s ss ih =>
      simp only [runAll, Eval.runAll, lift_bind, lift_ite, ih, lift_pure]

theorem within_lift (scope : ScopeId) (x : Eval α) :
  within scope (lift x) = lift (Eval.within scope x)
  := by
  funext m
  rw [lift, Eval.run_within, within, EStateM.run, lift]
  cases x.run { m with cursor := scope } <;> rfl

theorem counted_lift (x : Eval α) :
  counted (lift x) = lift (Eval.counted x)
  := by
  funext m
  rw [lift, Eval.run_counted, counted, EStateM.run, lift]
  cases x.run { m with depth := m.depth + 1 } <;> rfl

theorem invoke_lift (c : Closure) (args : List Value) :
  invoke (fun s => lift (run s)) c args = lift (Eval.invoke run c args)
  := by
  simp only [invoke, Eval.invoke, lift_bind, lift_get, runAll_lift, within_lift, counted_lift,
    lift_pure]

theorem shortCircuit_lift (op : BinaryOp) (decisive : Bool) (pos : Option Pos)
    (left right : Expr) :
  shortCircuit (fun e => lift (eval e)) op decisive pos left right
    = lift (Eval.shortCircuit eval op decisive pos left right)
  := by
  rw [shortCircuit, Eval.shortCircuit, ← bind_proceed_lift]
  congr 1
  funext v
  congr 1
  funext v
  rw [lift_bind]
  congr 1
  funext a
  rw [lift_ite, ← bind_proceed_lift]
  simp only [logical, lift_bind, lift_pure]

end

/-! ### All evaluations -/

/-- Within a limit all evaluations with checks are evaluations. -/
structure Agrees (limit : Nat) : Prop where
  expression : Checked.expression limit = fun e => lift (Eval.expression limit e)
  statement : Checked.statement limit = fun s => lift (Eval.statement limit s)

variable {limit : Nat}

theorem call_agrees (ih : Agrees limit) (pos : Option Pos) (callee : Expr) (args : List Expr) :
  expression (limit + 1) (.call pos callee args)
    = lift (Eval.expression (limit + 1) (.call pos callee args))
  := by
  rw [expression, Eval.expression, ih.expression, ih.statement]
  cases Eval.directBuiltin? callee with
  | some b => simp only [call_eq, withAll_lift]
  | none =>
      dsimp only
      rw [← bind_proceed_lift]
      congr 1
      funext v
      congr 1
      funext f
      cases f with
      | fn c => simp only [lift_ite, withAll_lift, invoke_lift, lift_fail]
      | builtin n =>
          dsimp only
          rw [← withAll_lift]
          congr 1
          funext vs
          unfold builtin
          cases Builtin.ofName? n with
          | some b =>
              rw [pure_bind]
              apply call_eq
          | none => rfl
      | _ => simp only [lift_bind, lift_fail]

theorem cond_agrees (ih : Agrees limit) (pos : Option Pos) (condition : Expr)
    (consequence : Stmt) (alternative : Option Stmt) :
  expression (limit + 1) (.cond pos condition consequence alternative)
    = lift (Eval.expression (limit + 1) (.cond pos condition consequence alternative))
  := by
  rw [expression, Eval.expression, ih.expression, ih.statement, ← bind_proceed_lift]
  congr 1
  funext v
  congr 1
  funext w
  cases w with
  | bool b => cases b <;> cases alternative <;> rfl
  | _ => rfl

theorem binary_agrees (ih : Agrees limit) (pos : Option Pos) (left : Expr) (op : BinaryOp)
    (right : Expr) :
  expression (limit + 1) (.binary pos left op right)
    = lift (Eval.expression (limit + 1) (.binary pos left op right))
  := by
  cases op with
  | and | or =>
      rw [expression, Eval.expression, ih.expression]
      apply shortCircuit_lift
  | _ =>
      simp only [expression, Eval.expression, ih.expression]
      apply withAll_pair
      apply binary_eq

theorem expression_agrees (ih : Agrees limit) (e : Expr) :
  expression (limit + 1) e = lift (Eval.expression (limit + 1) e)
  := by
  cases e with
  | int | bool | str | bare =>
      rw [expression, Eval.expression]
      rfl
  | ident pos n =>
      rw [expression, Eval.expression]
      apply name_eq
  | array pos es | map pos es =>
      rw [expression, Eval.expression, ih.expression]
      apply withAll_lift
  | binary pos left op right => apply binary_agrees ih
  | unary pos op operand =>
      rw [expression, Eval.expression, ih.expression]
      apply bind_proceed_lift
  | index pos collection position =>
      rw [expression, Eval.expression, ih.expression]
      apply withAll_pair
      apply index_eq
  | group pos inner => rw [expression, Eval.expression, ih.expression]
  | call pos callee args => apply call_agrees ih
  | cond pos condition consequence alternative => apply cond_agrees ih
  | fn pos parameters body => rw [expression, Eval.expression]

theorem statement_agrees (ih : Agrees limit) (s : Stmt) :
  statement (limit + 1) s = lift (Eval.statement (limit + 1) s)
  := by
  cases s with
  | bind pos n e =>
      rw [statement, Eval.statement, ih.expression, ← bind_proceed_lift]
      simp only [lift_bind, lift_pure]
  | ret pos e =>
      simp only [statement, Eval.statement, ih.expression, lift_get, lift_ite, lift_bind,
        lift_fail, lift_pure]
  | expr pos e => rw [statement, Eval.statement, ih.expression]
  | block pos body =>
      simp only [statement, Eval.statement, ih.statement, lift_get, lift_bind, runAll_lift,
        within_lift]
  | bare pos =>
      rw [statement, Eval.statement]
      rfl

/-- Evaluation with checks is evaluation. -/
theorem agrees (limit : Nat) :
  Agrees limit
  := by
  induction limit with
  | zero =>
      constructor
      · funext e
        rw [expression, Eval.expression]
        rfl
      · funext s
        rw [statement, Eval.statement]
        rfl
  | succ limit ih =>
      constructor
      · funext e
        apply expression_agrees ih
      · funext s
        apply statement_agrees ih

theorem statements_eq (limit : Nat) (ss : List Stmt) :
  statements limit ss = lift (Eval.statements limit ss)
  := by
  induction ss with
  | nil => rfl
  | cons s ss ih =>
      simp only [statements, Eval.statements, (agrees limit).statement, ih, lift_bind, lift_pure]

end ExprScript.Checked
