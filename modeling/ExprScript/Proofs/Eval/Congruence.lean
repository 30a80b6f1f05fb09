import ExprScript.Proofs.Eval.Grouping

/-!
# Relations that evaluation respects

A relation of evaluations is a congruence if it respects sequences, blocks and calls and relates
every single operation to itself.  It then relates the evaluation of any node within a limit to
itself.  If it relates a limit that is used up to all that it relates to itself, it also relates the
evaluation of a node within a limit to the one within a larger limit.
-/

namespace ExprScript

namespace Eval

open Stateful

section

variable {α : Type}

/-- The work is done in a new scope inside the current one. -/
def inBlock (work : Eval α) : Eval α := fun m =>
  withFinal (fun m' => { m' with cursor := m.cursor }) (work.run (m.enter m.cursor [] m.depth))

/-- The work is done in a call of a closure. -/
def inCall (c : Closure) (args : List Value) (work : Eval α) : Eval α := fun m =>
  withFinal (fun m' => { m' with cursor := m.cursor, depth := m'.depth - 1 })
    (work.run (m.call c args))

theorem run_inBlock (work : Eval α) (m : Machine) :
  (inBlock work).run m
    = withFinal (fun m' => { m' with cursor := m.cursor })
        (work.run (m.enter m.cursor [] m.depth))
  := rfl

theorem run_inCall (c : Closure) (args : List Value) (work : Eval α) (m : Machine) :
  (inCall c args work).run m
    = withFinal (fun m' => { m' with cursor := m.cursor, depth := m'.depth - 1 })
        (work.run (m.call c args))
  := rfl

end

theorem statement_block (limit : Nat) (pos : Option Pos) (body : List Stmt) :
  statement (limit + 1) (.block pos body) = inBlock (runAll (statement limit) .unit body)
  := by
  funext m
  apply run_block

theorem invoke_eq (run : Stmt → Eval Value) (c : Closure) (args : List Value) :
  invoke run c args
    = inCall c args (runAll run .unit c.body.statements >>= fun v => pure v.content)
  := by
  funext m
  apply run_invoke

/-! ### Texts within larger limits -/

section

variable {limit limit' : Nat}

theorem region_empty :
  Region (fun _ => False) 0
  := ⟨False.elim, False.elim⟩

/-- What is called is shown within a larger limit as within one that is not used up. -/
theorem agrees_render (hle : limit ≤ limit') (e : Expr) :
  Leader.grouped.Agrees (.error .exhausted) (e.render limit) (e.render limit')
  := by
  have hfault := @Region.agrees_fault? _ _ region_empty .grouped true (.expr e) nofun _ _ hle
  rw [Node.recast, Expr.recast_id] at hfault
  exact hfault.map (RenderFault.unless · e.text)

/-- So is what is printed. -/
theorem agrees_line (hle : limit ≤ limit') (args : List Value) :
  Leader.grouped.Agrees (.error .exhausted) (Builtin.line limit args) (Builtin.line limit' args)
  := by
  apply region_empty.agrees_line (Value.Alike.reflAll sheds_refl args)
  apply hle

end

/-! ### Congruences -/

/-- The relation respects sequences, blocks and calls, and relates single operations to
themselves. -/
structure Congruence (Rel : {α : Type} → Eval α → Eval α → Prop) : Prop where
  bind : ∀ {α β : Type} {x y : Eval α} {f g : α → Eval β}, Rel x y → (∀ a, Rel (f a) (g a)) →
    Rel (x >>= f) (y >>= g)
  /-- A `return` looks at the number of calls that it is in. -/
  inside : ∀ {x y : Eval Value} (pos : Option Pos), Rel x y →
    Rel (do if (← get).depth = 0 then fail .strayReturn pos else x)
      (do if (← get).depth = 0 then fail .strayReturn pos else y)
  inBlock : ∀ {x y : Eval Value}, Rel x y → Rel (inBlock x) (inBlock y)
  inCall : ∀ {x y : Eval Value} (c : Closure) (args : List Value), Rel x y →
    Rel (inCall c args x) (inCall c args y)
  pure : ∀ {α : Type} (a : α), Rel (pure a) (pure a)
  throw : ∀ {α : Type} (e : Fault), Rel (throw e : Eval α) (throw e)
  lookup? : ∀ name : String, Rel (lookup? name) (lookup? name)
  define : ∀ (name : String) (v : Value), Rel (define name v) (define name v)
  serial : Rel serial serial
  close : ∀ (parameters : List String) (body : Stmt),
    Rel (close parameters body) (close parameters body)
  print : ∀ text : String, Rel (print text) (print text)

/-- The relation relates a limit that is used up to all that it relates to itself. -/
def Excuses (Rel : {α : Type} → Eval α → Eval α → Prop) : Prop :=
  ∀ {α : Type} {y : Eval α}, Rel y y → Rel (throw .exhausted) y

/-- All nodes are related within two limits, and so are the texts that are asked for. -/
structure RelatedAt (Rel : {α : Type} → Eval α → Eval α → Prop) (limit limit' : Nat) : Prop where
  expression : ∀ e, Rel (expression limit e) (expression limit' e)
  statement : ∀ s, Rel (statement limit s) (statement limit' s)
  callee : ∀ e : Expr, Rel (orRenderFault (e.render limit)) (orRenderFault (e.render limit'))
  line : ∀ args : List Value,
    Rel (orRenderFault (Builtin.line limit args)) (orRenderFault (Builtin.line limit' args))

namespace Congruence

variable {Rel : {α : Type} → Eval α → Eval α → Prop} (h : Congruence Rel)

include h

/-! ### Single operations -/

theorem proceed {x y : Eval Value} {f g : Value → Eval Value} (hx : Rel x y)
    (hf : ∀ v, Rel (f v) (g v)) :
  Rel (x >>= fun v => Eval.proceed v f) (y >>= fun v => Eval.proceed v g)
  := by
  apply h.bind hx
  intro v
  rw [Eval.proceed, Eval.proceed]
  split
  · apply h.pure
  · apply hf

theorem orFail {α : Type} (pos : Option Pos) (r : Except EvalCause α) :
  Rel (orFail pos r) (orFail pos r)
  := by
  cases r with
  | ok a => apply h.pure
  | error cause => apply h.throw

theorem orRenderFault {α : Type} (r : Except RenderFault α) :
  Rel (orRenderFault r) (orRenderFault r)
  := by
  cases r with
  | ok a => apply h.pure
  | error fault => apply h.throw

theorem array (vs : List Value) :
  Rel (array vs) (array vs)
  := by
  apply h.bind h.serial
  intro i
  apply h.pure

theorem map (es : List (String × Value)) :
  Rel (map es) (map es)
  := by
  apply h.bind h.serial
  intro i
  apply h.pure

theorem name (pos : Option Pos) (n : String) :
  Rel (name pos n) (name pos n)
  := by
  apply h.bind (h.lookup? n)
  intro v?
  cases v? with
  | some v => apply h.pure
  | none =>
      cases Builtin.ofName? n with
      | some b => apply h.pure
      | none => apply h.throw

theorem logical (op : BinaryOp) (pos : Option Pos) (v : Value) :
  Rel (logical op pos v) (logical op pos v)
  := by
  cases v with
  | bool b => apply h.pure
  | _ => apply h.throw

/-! ### Lists of nodes -/

section

variable {eval eval' : Expr → Eval Value} {run run' : Stmt → Eval Value}
  (he : ∀ e, Rel (eval e) (eval' e)) (hs : ∀ s, Rel (run s) (run' s))

include he in
theorem gather (es : List Expr) :
  Rel (gather eval es) (gather eval' es)
  := by
  induction es with
  | nil => apply h.pure
  | cons e es ih =>
      apply h.bind (he e)
      intro v
      split
      · apply h.pure
      · apply h.bind ih
        intro g
        cases g with
        | values vs => apply h.pure
        | returned w => apply h.pure

include he in
theorem withAll (es : List Expr) {next next' : List Value → Eval Value}
    (hnext : ∀ vs, Rel (next vs) (next' vs)) :
  Rel (withAll eval es next) (withAll eval' es next')
  := by
  apply h.bind (h.gather he es)
  intro g
  cases g with
  | values vs => apply hnext
  | returned v => apply h.pure

include he in
theorem shortCircuit (op : BinaryOp) (decisive : Bool) (pos : Option Pos) (left right : Expr) :
  Rel (shortCircuit eval op decisive pos left right)
    (shortCircuit eval' op decisive pos left right)
  := by
  apply h.proceed (he left)
  intro v
  apply h.bind (h.logical op pos v)
  intro a
  split
  · apply h.pure
  · apply h.proceed (he right)
    intro w
    apply h.bind (h.logical op pos w)
    intro _
    apply h.pure

include hs in
theorem runAll (last : Value) (ss : List Stmt) :
  Rel (runAll run last ss) (runAll run' last ss)
  := by
  induction ss generalizing last with
  | nil => apply h.pure
  | cons s ss ih =>
      apply h.bind (hs s)
      intro v
      split
      · apply h.pure
      · apply ih

include hs in
theorem invoke (c : Closure) (args : List Value) :
  Rel (invoke run c args) (invoke run' c args)
  := by
  rw [invoke_eq, invoke_eq]
  apply h.inCall
  apply h.bind (h.runAll hs .unit _)
  intro v
  apply h.pure

end

/-! ### Nodes -/

variable {limit limit' : Nat}

section

variable (ih : RelatedAt Rel limit limit')

include ih

theorem builtin (pos : Option Pos) (args : List Value) (b : Builtin) :
  Rel (b.call limit pos args) (b.call limit' pos args)
  := by
  cases b with
  | len => apply h.orFail
  | append | rest =>
      apply h.bind (h.orFail pos _)
      apply h.array
  | print | println =>
      apply h.bind (ih.line args)
      intro text
      apply h.bind (h.print _)
      intro _
      apply h.pure

theorem call (pos : Option Pos) (callee : Expr) (args : List Expr) :
  Rel (Eval.expression (limit + 1) (.call pos callee args))
    (Eval.expression (limit' + 1) (.call pos callee args))
  := by
  rw [Eval.expression, Eval.expression]
  split
  · apply h.withAll ih.expression
    intro vs
    apply h.builtin ih
  · apply h.proceed (ih.expression callee)
    intro f
    split
    · split
      · apply h.withAll ih.expression
        intro vs
        apply h.invoke ih.statement
      · apply h.throw
    · apply h.withAll ih.expression
      intro vs
      split
      · apply h.builtin ih
      · apply h.throw
    · apply h.bind (ih.callee callee)
      intro text
      apply h.throw

theorem expression (e : Expr) :
  Rel (Eval.expression (limit + 1) e) (Eval.expression (limit' + 1) e)
  := by
  cases e with
  | call pos callee args => apply h.call ih
  | binary pos left op right =>
      cases op with
      | and | or =>
          rw [Eval.expression, Eval.expression]
          apply h.shortCircuit ih.expression
      | _ =>
          simp only [Eval.expression]
          apply h.proceed (ih.expression left)
          intro v
          apply h.proceed (ih.expression right)
          intro w
          apply h.orFail
  | int | bool | str =>
      rw [Eval.expression, Eval.expression]
      apply h.pure
  | ident pos n =>
      rw [Eval.expression, Eval.expression]
      apply h.name
  | group pos inner =>
      rw [Eval.expression, Eval.expression]
      apply ih.expression
  | array pos es =>
      rw [Eval.expression, Eval.expression]
      apply h.withAll ih.expression es h.array
  | map pos entries =>
      rw [Eval.expression, Eval.expression]
      apply h.withAll ih.expression _ fun vs => h.map _
  | unary pos op operand =>
      rw [Eval.expression, Eval.expression]
      apply h.proceed (ih.expression operand)
      intro v
      apply h.orFail
  | index pos collection position =>
      rw [Eval.expression, Eval.expression]
      apply h.proceed (ih.expression collection)
      intro v
      apply h.proceed (ih.expression position)
      intro w
      apply h.orFail
  | cond pos condition consequence alternative =>
      rw [Eval.expression, Eval.expression]
      apply h.proceed (ih.expression condition)
      intro v
      split
      · apply ih.statement
      · apply ih.statement
      · apply h.pure
      · apply h.throw
  | fn pos parameters body =>
      rw [Eval.expression, Eval.expression]
      apply h.close
  | bare pos =>
      rw [Eval.expression, Eval.expression]
      apply h.throw

theorem statement (s : Stmt) :
  Rel (Eval.statement (limit + 1) s) (Eval.statement (limit' + 1) s)
  := by
  cases s with
  | bind pos n e =>
      rw [Eval.statement, Eval.statement]
      apply h.proceed (ih.expression e)
      intro v
      apply h.bind (h.define n v)
      intro _
      apply h.pure
  | ret pos e =>
      rw [Eval.statement, Eval.statement]
      apply h.inside
      apply h.bind (ih.expression e)
      intro v
      apply h.pure
  | expr pos e =>
      rw [Eval.statement, Eval.statement]
      apply ih.expression
  | block pos body =>
      rw [statement_block, statement_block]
      apply h.inBlock
      apply h.runAll ih.statement
  | bare pos =>
      rw [Eval.statement, Eval.statement]
      apply h.throw

end

/-- Within one limit all nodes are related to themselves. -/
theorem related_self (limit : Nat) :
  RelatedAt Rel limit limit
  := by
  induction limit with
  | zero =>
      refine ⟨?_, ?_, fun e => h.orRenderFault _, fun args => h.orRenderFault _⟩
      · intro e
        rw [Eval.expression]
        apply h.throw
      · intro s
        rw [Eval.statement]
        apply h.throw
  | succ limit ih =>
      refine ⟨?_, ?_, fun e => h.orRenderFault _, fun args => h.orRenderFault _⟩
      · apply h.expression ih
      · apply h.statement ih

/-! ### Larger limits -/

section

variable (hstop : Excuses Rel)

include hstop

/-- A text is related to the one that is given within a larger limit. -/
theorem orRenderFault_of_agrees {α : Type} {r r' : Except RenderFault α}
    (hr : Leader.grouped.Agrees (.error .exhausted) r r') :
  Rel (Eval.orRenderFault r) (Eval.orRenderFault r')
  := by
  cases hr with
  | same => apply h.orRenderFault
  | grouped => apply hstop (h.orRenderFault r')

/-- Within a limit all nodes are related to themselves within a larger one. -/
theorem related_of_le (hle : limit ≤ limit') :
  RelatedAt Rel limit limit'
  := by
  have hcallee : ∀ {limit limit'}, limit ≤ limit' → ∀ e : Expr,
      Rel (Eval.orRenderFault (e.render limit)) (Eval.orRenderFault (e.render limit')) := by
    intro limit limit' hle e
    apply h.orRenderFault_of_agrees hstop
    apply agrees_render hle
  have hline : ∀ {limit limit'}, limit ≤ limit' → ∀ args,
      Rel (Eval.orRenderFault (Builtin.line limit args))
        (Eval.orRenderFault (Builtin.line limit' args)) := by
    intro limit limit' hle args
    apply h.orRenderFault_of_agrees hstop
    apply agrees_line hle
  induction limit generalizing limit' with
  | zero =>
      have hself := h.related_self limit'
      refine ⟨?_, ?_, hcallee hle, hline hle⟩
      · intro e
        rw [Eval.expression]
        apply hstop (hself.expression e)
      · intro s
        rw [Eval.statement]
        apply hstop (hself.statement s)
  | succ limit ih =>
      obtain ⟨limit', rfl⟩ := Nat.exists_eq_add_of_le' (Nat.le_trans (Nat.le_add_left 1 limit) hle)
      have hparts := ih (Nat.le_of_succ_le_succ hle)
      exact ⟨h.expression hparts, h.statement hparts, hcallee hle, hline hle⟩

end

end Congruence

end Eval

end ExprScript
