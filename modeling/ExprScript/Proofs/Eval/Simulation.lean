import ExprScript.Proofs.Eval.Direct

/-!
# Values on their way are exits

Evaluation hands on the value of a `return` step by step, where direct evaluation aborts.  Started
in the same plain state they end in the same state, with the same value or the same fault; a
value that is handed on stands for an exit with its content.  This is shown for every way of
putting evaluations together, and then for all nodes by induction on the limit.
-/

namespace ExprScript.Direct

open Stateful

attribute [local simp] Eval.statement Eval.expression statement expression

/-- What a direct evaluation comes to, with exits as values on their way. -/
def outcome : EStateM.Result Exit PlainMachine Datum → EStateM.Result Fault Machine Value
  | .ok d m => .ok d.val m.val
  | .error (.leave d) m => .ok (.returned d.val) m.val
  | .error (.fault e) m => .error e m.val

/-- What the direct evaluation of several expressions comes to. -/
def outcomes :
    EStateM.Result Exit PlainMachine (List Datum) → EStateM.Result Fault Machine Eval.Gathered
  | .ok ds m => .ok (.values (Datum.values ds)) m.val
  | .error (.leave d) m => .ok (.returned (.returned d.val)) m.val
  | .error (.fault e) m => .error e m.val

/-- From every plain state an evaluation comes to the same as a direct one. -/
def Simulates (x : Eval Value) (y : Direct Datum) : Prop :=
  ∀ m, x.run m.val = outcome (y.run m)

variable {x : Eval Value} {y : Direct Datum}

/-! ### Single operations -/

theorem simulates_pure (d : Datum) :
  Simulates (pure d.val) (pure d)
  := fun _ => rfl

theorem simulates_throw (e : Fault) :
  Simulates (throw e) (throw (.fault e))
  := fun _ => rfl

theorem simulates_fail (cause : EvalCause) (pos : Option Pos) :
  Simulates (Eval.fail cause pos) (fail cause pos)
  := fun _ => rfl

theorem simulates_lift (hx : Keeps x) :
  Simulates x (lift x hx)
  := by
  intro m
  have hrun : (lift x hx).run m = lift x hx m := rfl
  rw [hrun, lift]
  split
  · rename_i h
    apply h
  · rename_i h
    apply h

theorem isReturned_eq_false (d : Datum) :
  d.val.isReturned = false
  := d.plain.not_returned

/-! ### Sequences -/

theorem Simulates.proceed {f : Value → Eval Value} {g : Datum → Direct Datum}
    (hx : Simulates x y) (hf : ∀ d : Datum, Simulates (f d.val) (g d)) :
  Simulates (x >>= fun v => Eval.proceed v f) (y >>= g)
  := by
  intro m
  rw [EStateM.run_bind, EStateM.run_bind, hx m]
  cases y.run m with
  | ok d m' =>
      have hnext : Eval.proceed d.val f = f d.val := by
        rw [Eval.proceed, isReturned_eq_false, if_neg Bool.false_ne_true]
      rw [outcome]
      simp only [hnext]
      apply hf d m'
  | error e m' =>
      cases e with
      | leave d => rfl
      | fault e => rfl

theorem run_gather {eval : Expr → Eval Value} {eval' : Expr → Direct Datum} {es : List Expr}
    (h : ∀ e ∈ es, Simulates (eval e) (eval' e)) (m : PlainMachine) :
  (Eval.gather eval es).run m.val = outcomes ((es.mapM eval').run m)
  := by
  induction es generalizing m with
  | nil => rfl
  | cons e es ih =>
      rw [List.mapM_cons, Eval.gather, EStateM.run_bind, EStateM.run_bind,
        h e List.mem_cons_self m]
      cases (eval' e).run m with
      | ok d m₁ =>
          have hes := ih (fun e he => h e (List.mem_cons_of_mem _ he)) m₁
          simp only [outcome, isReturned_eq_false, EStateM.run_bind, Bool.false_eq_true, if_false]
          rw [hes]
          cases (es.mapM eval').run m₁ with
          | ok ds m₂ => rfl
          | error e m₂ =>
              cases e with
              | leave d => rfl
              | fault e => rfl
      | error e m₁ =>
          cases e with
          | leave d => rfl
          | fault e => rfl

theorem simulates_withAll {eval : Expr → Eval Value} {eval' : Expr → Direct Datum}
    {es : List Expr} {next : List Value → Eval Value} {next' : List Datum → Direct Datum}
    (h : ∀ e ∈ es, Simulates (eval e) (eval' e))
    (hn : ∀ ds, Simulates (next (Datum.values ds)) (next' ds)) :
  Simulates (Eval.withAll eval es next) (es.mapM eval' >>= next')
  := by
  intro m
  rw [Eval.withAll, EStateM.run_bind, EStateM.run_bind, run_gather h m]
  cases (es.mapM eval').run m with
  | ok ds m' => apply hn ds m'
  | error e m' =>
      cases e with
      | leave d => rfl
      | fault e => rfl

theorem simulates_runAll {run : Stmt → Eval Value} {run' : Stmt → Direct Datum}
    {ss : List Stmt} (h : ∀ s ∈ ss, Simulates (run s) (run' s)) (last : Datum) :
  Simulates (Eval.runAll run last.val ss) (runAll run' last ss)
  := by
  induction ss generalizing last with
  | nil => apply simulates_pure
  | cons s ss ih =>
      rw [Eval.runAll, runAll]
      apply (h s List.mem_cons_self).proceed
      intro d
      apply ih fun s hs => h s (List.mem_cons_of_mem _ hs)

theorem simulates_shortCircuit {eval : Expr → Eval Value} {eval' : Expr → Direct Datum}
    {op : BinaryOp} {decisive : Bool} {pos : Option Pos} {left right : Expr}
    (hl : Simulates (eval left) (eval' left)) (hr : Simulates (eval right) (eval' right)) :
  Simulates (Eval.shortCircuit eval op decisive pos left right)
    (shortCircuit eval' op decisive pos left right)
  := by
  apply hl.proceed
  rintro ⟨v, hv⟩
  cases v with
  | bool b =>
      simp only [Eval.logical, logical, pure_bind]
      split
      · apply simulates_pure ⟨.bool b, hv⟩
      · apply hr.proceed
        rintro ⟨w, hw⟩
        cases w with
        | bool b' => apply simulates_pure ⟨.bool b', hw⟩
        | _ => apply simulates_fail
  | _ => apply simulates_fail

/-! ### Blocks and calls -/

theorem outcome_leaveBlock (m : PlainMachine)
    (r : EStateM.Result Exit PlainMachine Datum) :
  outcome (withFinal m.leaveBlock r)
    = withFinal (fun m' => { m' with cursor := m.val.cursor }) (outcome r)
  := by
  cases r with
  | ok d m' => rfl
  | error e m' =>
      cases e with
      | leave d => rfl
      | fault e => rfl

theorem simulates_block {limit : Nat} {pos : Option Pos} {body : List Stmt}
    (h : Simulates (Eval.runAll (Eval.statement limit) .unit body) y) :
  Simulates (Eval.statement (limit + 1) (.block pos body)) (block y)
  := by
  intro m
  have hblock : (block y).run m = withFinal m.leaveBlock (y.run m.enter) := rfl
  have hbody : (Eval.runAll (Eval.statement limit) .unit body).run
      (m.val.enter m.val.cursor [] m.val.depth) = outcome (y.run m.enter) := h m.enter
  rw [Eval.run_block, hblock, outcome_leaveBlock, hbody]

/-- A call takes the content out of what its body comes to, so that it does not matter whether
the body ran to its end or was left. -/
theorem simulates_invoke {run : Stmt → Eval Value} {run' : Stmt → Direct Datum} {c : Closure}
    (h : ∀ s ∈ c.body.statements, Simulates (run s) (run' s)) (args : List Datum) :
  Simulates (Eval.invoke run c (Datum.values args)) (invoke run' c args)
  := by
  intro m
  have hbody : (Eval.runAll run .unit c.body.statements).run (m.val.call c (Datum.values args))
      = outcome ((runAll run' .unit c.body.statements).run (m.call c args)) :=
    simulates_runAll h .unit (m.call c args)
  have hrun : (invoke run' c args).run m = invoke run' c args m := rfl
  rw [Eval.run_invoke, EStateM.run_bind, hbody, hrun, invoke]
  cases (runAll run' .unit c.body.statements).run (m.call c args) with
  | ok d m' =>
      have hcontent : d.val.content = d.val := d.plain.content_eq
      rw [outcome]
      simp only [hcontent]
      rfl
  | error e m' =>
      cases e with
      | leave d => rfl
      | fault e => rfl

/-! ### All evaluations -/

/-- Within a limit all evaluations come to the same as the direct ones. -/
structure SimulatesAll (limit : Nat) : Prop where
  expression : ∀ e, Simulates (Eval.expression limit e) (Direct.expression limit e)
  statement : ∀ s, Simulates (Eval.statement limit s) (Direct.statement limit s)

variable {limit : Nat}

theorem simulates_binary (ih : SimulatesAll limit) (pos : Option Pos) (left : Expr)
    (op : BinaryOp) (right : Expr) :
  Simulates (Eval.expression (limit + 1) (.binary pos left op right))
    (expression (limit + 1) (.binary pos left op right))
  := by
  cases op with
  | and =>
      rw [Eval.expression, expression]
      apply simulates_shortCircuit (ih.expression left) (ih.expression right)
  | or =>
      rw [Eval.expression, expression]
      apply simulates_shortCircuit (ih.expression left) (ih.expression right)
  | _ =>
      simp only [Eval.expression, expression]
      apply (ih.expression left).proceed
      intro d
      apply (ih.expression right).proceed
      intro d'
      apply simulates_lift

theorem simulates_cond (ih : SimulatesAll limit) (pos : Option Pos) (condition : Expr)
    (consequence : Stmt) (alternative : Option Stmt) :
  Simulates (Eval.expression (limit + 1) (.cond pos condition consequence alternative))
    (expression (limit + 1) (.cond pos condition consequence alternative))
  := by
  rw [Eval.expression, expression]
  apply (ih.expression condition).proceed
  rintro ⟨v, hv⟩
  cases v with
  | bool b =>
      cases b with
      | true => apply ih.statement consequence
      | false =>
          cases alternative with
          | some s => apply ih.statement s
          | none => apply simulates_pure .unit
  | _ => apply simulates_fail

theorem simulates_call (ih : SimulatesAll limit) (pos : Option Pos) (callee : Expr)
    (args : List Expr) :
  Simulates (Eval.expression (limit + 1) (.call pos callee args))
    (expression (limit + 1) (.call pos callee args))
  := by
  have hargs : ∀ e ∈ args, Simulates (Eval.expression limit e) (expression limit e) :=
    fun e _ => ih.expression e
  rw [Eval.expression, expression]
  cases Eval.directBuiltin? callee with
  | some b =>
      apply simulates_withAll hargs
      intro ds
      apply simulates_lift
  | none =>
      apply (ih.expression callee).proceed
      rintro ⟨f, hf⟩
      cases f with
      | fn c =>
          dsimp only
          split
          · apply simulates_withAll hargs
            intro ds
            apply simulates_invoke fun s _ => ih.statement s
          · apply simulates_fail
      | builtin n =>
          apply simulates_withAll hargs
          intro ds
          cases Builtin.ofName? n with
          | some b => apply simulates_lift
          | none => apply simulates_throw
      | _ =>
          intro m
          cases callee.render limit <;> rfl

theorem simulates_expression (ih : SimulatesAll limit) (e : Expr) :
  Simulates (Eval.expression (limit + 1) e) (expression (limit + 1) e)
  := by
  cases e with
  | ident pos n =>
      rw [Eval.expression, expression]
      apply simulates_lift
  | int pos n =>
      rw [Eval.expression, expression]
      apply simulates_pure ⟨.int n, .int trivial⟩
  | bool pos b =>
      rw [Eval.expression, expression]
      apply simulates_pure ⟨.bool b, .bool trivial⟩
  | str pos s =>
      rw [Eval.expression, expression]
      apply simulates_pure ⟨.str s, .str trivial⟩
  | array pos es =>
      rw [Eval.expression, expression]
      apply simulates_withAll fun e _ => ih.expression e
      intro ds
      apply simulates_lift
  | map pos entries =>
      rw [Eval.expression, expression]
      apply simulates_withAll fun e _ => ih.expression e
      intro ds
      apply simulates_lift
  | binary pos left op right => apply simulates_binary ih
  | unary pos op operand =>
      rw [Eval.expression, expression]
      apply (ih.expression operand).proceed
      intro d
      apply simulates_lift
  | index pos collection position =>
      rw [Eval.expression, expression]
      apply (ih.expression collection).proceed
      intro d
      apply (ih.expression position).proceed
      intro d'
      apply simulates_lift
  | group pos inner =>
      rw [Eval.expression, expression]
      apply ih.expression inner
  | call pos callee args => apply simulates_call ih
  | cond pos condition consequence alternative => apply simulates_cond ih
  | fn pos parameters body =>
      rw [Eval.expression, expression]
      apply simulates_lift
  | bare pos =>
      rw [Eval.expression, expression]
      apply simulates_throw

/-- Here a value is sent on its way, where the direct evaluation exits. -/
theorem simulates_ret (ih : SimulatesAll limit) (pos : Option Pos) (e : Expr) :
  Simulates (Eval.statement (limit + 1) (.ret pos e)) (statement (limit + 1) (.ret pos e))
  := by
  rw [Eval.statement, statement]
  intro m
  rw [run_get_bind, run_get_bind]
  split
  · rfl
  · rw [EStateM.run_bind, EStateM.run_bind, ih.expression e m]
    cases (expression limit e).run m with
    | ok d m' =>
        have hcontent : d.val.content = d.val := d.plain.content_eq
        rw [outcome]
        simp only [hcontent]
        rfl
    | error exit m' =>
        cases exit with
        | leave d => rfl
        | fault e => rfl

theorem simulates_statement (ih : SimulatesAll limit) (s : Stmt) :
  Simulates (Eval.statement (limit + 1) s) (statement (limit + 1) s)
  := by
  cases s with
  | bind pos n e =>
      rw [Eval.statement, statement]
      apply (ih.expression e).proceed
      intro d m
      rfl
  | ret pos e => apply simulates_ret ih
  | expr pos e =>
      rw [Eval.statement, statement]
      apply ih.expression e
  | block pos body =>
      rw [statement]
      apply simulates_block
      apply simulates_runAll (fun s _ => ih.statement s) .unit
  | bare pos =>
      rw [Eval.statement, statement]
      apply simulates_throw

theorem simulatesAll (limit : Nat) :
  SimulatesAll limit
  := by
  induction limit with
  | zero =>
      constructor
      · intro e
        rw [Eval.expression, expression]
        apply simulates_throw
      · intro s
        rw [Eval.statement, statement]
        apply simulates_throw
  | succ limit ih => exact ⟨simulates_expression ih, simulates_statement ih⟩

end ExprScript.Direct
