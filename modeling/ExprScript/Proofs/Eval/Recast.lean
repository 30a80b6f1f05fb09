import ExprScript.Proofs.Eval.Enter
import ExprScript.Proofs.Value.Recast

/-!
# Evaluation knows nothing of positions

Evaluating a recast tree in a recast state comes to what evaluating the tree comes to, recast:
positions are handed on to errors and to the bodies of functions, and nothing else depends on
them.  Nothing depends on the log either.  This is shown for every way of putting evaluations
together, and then for all nodes by induction on the limit.
-/

namespace ExprScript

open Stateful

section

variable (place : Pos → Pos) {α : Type}

/-- The state with other positions and another log. -/
def Machine.recast (log : Array Event) (m : Machine) : Machine :=
  { m with heap := m.heap.recast place, log := log }

/-- The run with other positions and another log at its end. -/
def recastRun (view : α → α) (log : Array Event) :
    EStateM.Result Fault Machine α → EStateM.Result Fault Machine α
  | .ok a m => .ok (view a) (m.recast place log)
  | .error e m => .error (e.recast place) (m.recast place log)

theorem final_recastRun (view : α → α) (log : Array Event)
    (r : EStateM.Result Fault Machine α) :
  final (recastRun place view log r) = (final r).recast place log
  := by
  cases r <;> rfl

/-- The second evaluation does in a state with other positions, whatever its log, what the first
one does. -/
def Mirrors (view : α → α) (x y : Eval α) : Prop :=
  ∀ m log, ∃ log', y.run (m.recast place log) = recastRun place view log' (x.run m)

/-- What was gathered, with other positions. -/
def Eval.Gathered.recast : Eval.Gathered → Eval.Gathered
  | .values vs => .values (vs.map (Value.recast place))
  | .returned v => .returned (v.recast place)

end

namespace Eval

variable {place : Pos → Pos} {α β : Type} {view : α → α} {view' : β → β}

/-! ### Sequences -/

theorem mirrors_pure (a : α) :
  Mirrors place view (pure a) (pure (view a))
  := fun _ log => ⟨log, rfl⟩

theorem mirrors_throw (e : Fault) :
  Mirrors place view (throw e : Eval α) (throw (e.recast place))
  := fun _ log => ⟨log, rfl⟩

theorem bind_mirrors {x y : Eval α} {f g : α → Eval β} (hx : Mirrors place view x y)
    (hf : ∀ a, Mirrors place view' (f a) (g (view a))) :
  Mirrors place view' (x >>= f) (y >>= g)
  := by
  intro m log
  obtain ⟨log₁, hy⟩ := hx m log
  rw [EStateM.run_bind, EStateM.run_bind, hy]
  cases x.run m with
  | ok a m₁ => apply hf a m₁ log₁
  | error e m₁ => exact ⟨log₁, rfl⟩

theorem mirrors_get {f g : Machine → Eval α}
    (h : ∀ m log, Mirrors place view (f m) (g (m.recast place log))) :
  Mirrors place view (get >>= f) (get >>= g)
  := fun m log => h m log m log

theorem mirrors_ite {c : Prop} [Decidable c] {x₁ x₂ y₁ y₂ : Eval α}
    (h₁ : Mirrors place view x₁ y₁) (h₂ : Mirrors place view x₂ y₂) :
  Mirrors place view (if c then x₁ else x₂) (if c then y₁ else y₂)
  := by
  split
  · apply h₁
  · apply h₂

theorem mirrors_proceed {x y : Eval Value} {f g : Value → Eval Value}
    (hx : Mirrors place (Value.recast place) x y)
    (hf : ∀ v, Mirrors place (Value.recast place) (f v) (g (v.recast place))) :
  Mirrors place (Value.recast place) (x >>= fun v => proceed v f) (y >>= fun v => proceed v g)
  := by
  apply bind_mirrors hx
  intro v
  unfold proceed
  rw [Value.isReturned_recast]
  apply mirrors_ite
  · apply mirrors_pure
  · apply hf

/-- What is logged makes no difference. -/
theorem record_mirrors {x y : Eval α} (event : Event) (h : Mirrors place view x y) :
  Mirrors place view (record event >>= fun _ => x) y
  := fun m log => h { m with log := m.log.push event } log

/-- Evaluations with one and the same mirror come to the same, up to positions, in states that are
the same up to positions and the log. -/
theorem recastRun_eq {x x' y : Eval α} (hx : Mirrors place view x y) (hx' : Mirrors place view x' y)
    {m m' : Machine} (hm : m.recast place #[] = m'.recast place #[]) :
  recastRun place view #[] (x.run m) = recastRun place view #[] (x'.run m')
  := by
  have herased : ∀ log (r : EStateM.Result Fault Machine α),
      withFinal (fun m => { m with log := #[] }) (recastRun place view log r)
        = recastRun place view #[] r := by
    intro log r
    cases r <;> rfl
  obtain ⟨log, hy⟩ := hx m #[]
  obtain ⟨log', hy'⟩ := hx' m' #[]
  rw [hm, hy'] at hy
  rw [← herased log, ← hy, herased]

/-! ### Single operations -/

theorem mirrors_fail {cause : EvalCause} (hc : cause.recast place = cause) (pos : Option Pos) :
  Mirrors place view (fail cause pos : Eval α) (fail cause (pos.map place))
  := by
  intro m log
  refine ⟨log, ?_⟩
  have hrun : ((fail cause pos : Eval α).run m) = .error (.error ⟨cause, pos⟩) m := rfl
  rw [hrun, recastRun, Fault.recast, EvalError.recast, hc]
  rfl

theorem mirrors_orFail (pos : Option Pos) (r : Except EvalCause α) :
  Mirrors place view (orFail pos r) (orFail (pos.map place) (recastOutcome place view r))
  := by
  cases r with
  | ok a => apply mirrors_pure
  | error cause => exact fun _ log => ⟨log, rfl⟩

theorem mirrors_orRenderFault (r : Except RenderFault String) :
  Mirrors place id (orRenderFault r) (orRenderFault r)
  := by
  cases r with
  | ok text => apply mirrors_pure
  | error fault => cases fault <;> exact fun _ log => ⟨log, rfl⟩

theorem mirrors_print (text : String) :
  Mirrors place id (print text) (print text)
  := fun _ log => ⟨log, rfl⟩

theorem mirrors_record (event event' : Event) :
  Mirrors place id (record event) (record event')
  := fun _ log => ⟨log.push event', rfl⟩

theorem mirrors_lookup? (name : String) :
  Mirrors place (Option.map (Value.recast place)) (lookup? name) (lookup? name)
  := by
  intro m log
  refine ⟨log, ?_⟩
  have h := m.heap.get?_recast place m.cursor name
  exact congrArg (EStateM.Result.ok · _) h

theorem mirrors_define (name : String) (v : Value) :
  Mirrors place id (define name v) (define name (v.recast place))
  := by
  intro m log
  refine ⟨log, ?_⟩
  have h := m.heap.set_recast place m.cursor name v
  exact congrArg (fun heap => EStateM.Result.ok () { m with heap := heap, log := log }) h

theorem mirrors_inside (outer : ScopeId) (bindings : List (String × Value)) :
  Mirrors place id (inside outer bindings)
    (inside outer (bindings.map (Value.recastEntry place)))
  := by
  intro m log
  refine ⟨log, ?_⟩
  have hcreate := m.heap.create_recast place (some outer)
  have hset := (m.heap.create (some outer)).2.setAll_recast place (m.heap.create (some outer)).1
    bindings
  have hinside : (inside outer (bindings.map (Value.recastEntry place))).run (m.recast place log)
      = .ok ((m.heap.recast place).create (some outer)).1
          { m with
            heap := ((m.heap.recast place).create (some outer)).2.setAll
              ((m.heap.recast place).create (some outer)).1
              (bindings.map (Value.recastEntry place))
            log := log } := rfl
  rw [hinside, hcreate, hset]
  rfl

theorem mirrors_serial :
  Mirrors place id serial serial
  := fun _ log => ⟨log, rfl⟩

theorem mirrors_array (vs : List Value) :
  Mirrors place (Value.recast place) (array vs) (array (vs.map (Value.recast place)))
  := by
  apply bind_mirrors mirrors_serial
  intro i
  rw [← Value.recastAll_eq_map]
  apply mirrors_pure

theorem mirrors_map (es : List (String × Value)) :
  Mirrors place (Value.recast place) (map es) (map (es.map (Value.recastEntry place)))
  := by
  apply bind_mirrors mirrors_serial
  intro i
  rw [← Value.recastEntries_eq_map]
  apply mirrors_pure

theorem mirrors_close (parameters : List String) (body : Stmt) :
  Mirrors place (Value.recast place) (close parameters body)
    (close parameters (body.recast (Option.map place) true))
  := by
  apply mirrors_get
  intro m log
  apply bind_mirrors (mirrors_record _ _)
  intro _
  apply bind_mirrors mirrors_serial
  intro i
  apply mirrors_pure

theorem mirrors_name (pos : Option Pos) (n : String) :
  Mirrors place (Value.recast place) (name pos n) (name (pos.map place) n)
  := by
  apply bind_mirrors (mirrors_lookup? n)
  intro v?
  cases v? with
  | some v => apply mirrors_pure
  | none =>
      dsimp only [Option.map_none]
      cases Builtin.ofName? n with
      | some b => apply mirrors_pure
      | none => apply mirrors_fail rfl

theorem mirrors_logical (op : BinaryOp) (pos : Option Pos) (v : Value) :
  Mirrors place id (logical op pos v) (logical op (pos.map place) (v.recast place))
  := by
  cases v with
  | bool b => apply mirrors_pure
  | _ =>
      simp only [logical, Value.recast, Value.kind, Value.kind_recast]
      apply mirrors_fail rfl

theorem mirrors_builtin (limit : Nat) (pos : Option Pos) (args : List Value) (b : Builtin) :
  Mirrors place (Value.recast place) (b.call limit pos args)
    (b.call limit (pos.map place) (args.map (Value.recast place)))
  := by
  cases b with
  | len =>
      rw [Builtin.call, Builtin.call, Builtin.length_recast]
      apply mirrors_orFail
  | append =>
      rw [Builtin.call, Builtin.call, Builtin.extended_recast]
      apply bind_mirrors (mirrors_orFail pos _)
      apply mirrors_array
  | rest =>
      rw [Builtin.call, Builtin.call, Builtin.shortened_recast]
      apply bind_mirrors (mirrors_orFail pos _)
      apply mirrors_array
  | print | println =>
      rw [Builtin.call, Builtin.call, Builtin.line_recast]
      apply bind_mirrors (mirrors_orRenderFault _)
      intro text
      apply bind_mirrors (mirrors_print _)
      intro _
      apply mirrors_pure

/-! ### Scopes and calls -/

theorem mirrors_within (scope : ScopeId) {x y : Eval α} (h : Mirrors place view x y) :
  Mirrors place view (within scope x) (within scope y)
  := by
  intro m log
  obtain ⟨log', hy⟩ := h { m with cursor := scope } log
  refine ⟨log', ?_⟩
  rw [run_within, run_within]
  refine (congrArg _ hy).trans ?_
  cases x.run { m with cursor := scope } <;> rfl

theorem mirrors_counted {x y : Eval α} (h : Mirrors place view x y) :
  Mirrors place view (counted x) (counted y)
  := by
  intro m log
  obtain ⟨log', hy⟩ := h { m with depth := m.depth + 1 } log
  refine ⟨log', ?_⟩
  rw [run_counted, run_counted]
  refine (congrArg _ hy).trans ?_
  cases x.run { m with depth := m.depth + 1 } <;> rfl

/-! ### Lists of nodes -/

section

variable {eval eval' : Expr → Eval Value} {run run' : Stmt → Eval Value}
  (he : ∀ e, Mirrors place (Value.recast place) (eval e) (eval' (e.recast (Option.map place) true)))
  (hs : ∀ s, Mirrors place (Value.recast place) (run s) (run' (s.recast (Option.map place) true)))

include he in
theorem mirrors_gather (es : List Expr) :
  Mirrors place (Gathered.recast place) (gather eval es)
    (gather eval' (es.map (Expr.recast (Option.map place) true)))
  := by
  induction es with
  | nil => apply mirrors_pure
  | cons e es ih =>
      rw [gather, List.map_cons, gather]
      apply bind_mirrors (he e)
      intro v
      rw [Value.isReturned_recast]
      split
      · exact mirrors_pure (Gathered.returned v)
      · apply bind_mirrors ih
        intro g
        cases g with
        | values vs => exact mirrors_pure (Gathered.values (v :: vs))
        | returned w => exact mirrors_pure (Gathered.returned w)

include he in
theorem mirrors_withAll (es : List Expr) {next next' : List Value → Eval Value}
    (hnext : ∀ vs, Mirrors place (Value.recast place) (next vs)
      (next' (vs.map (Value.recast place)))) :
  Mirrors place (Value.recast place) (withAll eval es next)
    (withAll eval' (es.map (Expr.recast (Option.map place) true)) next')
  := by
  apply bind_mirrors (mirrors_gather he es)
  intro g
  cases g with
  | values vs => apply hnext
  | returned v => apply mirrors_pure

include he in
theorem mirrors_shortCircuit (op : BinaryOp) (decisive : Bool) (pos : Option Pos)
    (left right : Expr) :
  Mirrors place (Value.recast place) (shortCircuit eval op decisive pos left right)
    (shortCircuit eval' op decisive (pos.map place) (left.recast (Option.map place) true)
      (right.recast (Option.map place) true))
  := by
  apply mirrors_proceed (he left)
  intro v
  apply bind_mirrors (mirrors_logical op pos v)
  intro a
  dsimp only [id]
  split
  · apply mirrors_pure
  · apply mirrors_proceed (he right)
    intro w
    apply bind_mirrors (mirrors_logical op pos w)
    intro _
    apply mirrors_pure

include hs in
theorem mirrors_runAll (ss : List Stmt) (last : Value) :
  Mirrors place (Value.recast place) (runAll run last ss)
    (runAll run' (last.recast place) (ss.map (Stmt.recast (Option.map place) true)))
  := by
  induction ss generalizing last with
  | nil => apply mirrors_pure
  | cons s ss ih =>
      rw [runAll, List.map_cons, runAll]
      apply bind_mirrors (hs s)
      intro v
      rw [Value.isReturned_recast]
      split
      · apply mirrors_pure
      · apply ih

include hs in
theorem mirrors_invoke (c : Closure) (args : List Value) :
  Mirrors place (Value.recast place) (invoke run c args)
    (invoke run' (c.recast place) (args.map (Value.recast place)))
  := by
  have hbody : Mirrors place (Value.recast place) (runAll run .unit c.body.statements)
      (runAll run' .unit (c.recast place).body.statements) := by
    rw [Closure.recast, Stmt.statements_recast]
    apply mirrors_runAll hs _ .unit
  have hzip : (c.recast place).parameters.zip (args.map (Value.recast place))
      = (c.parameters.zip args).map (Value.recastEntry place) := by
    rw [List.zip_map_right]
    rfl
  unfold invoke
  rw [hzip]
  apply bind_mirrors (mirrors_inside c.scope _)
  intro scope
  apply mirrors_get
  intro m log
  apply bind_mirrors (mirrors_record _ _)
  intro _
  apply bind_mirrors (mirrors_counted (mirrors_within scope hbody))
  intro v
  rw [Value.content_recast]
  apply mirrors_pure

end

/-! ### All nodes -/

/-- Within a limit all nodes are evaluated alike whatever their positions. -/
structure MirrorsAll (place : Pos → Pos) (limit : Nat) : Prop where
  expression : ∀ e, Mirrors place (Value.recast place) (expression limit e)
    (expression limit (e.recast (Option.map place) true))
  statement : ∀ s, Mirrors place (Value.recast place) (statement limit s)
    (statement limit (s.recast (Option.map place) true))

variable {limit : Nat}

theorem mirrors_binary (ih : MirrorsAll place limit) (pos : Option Pos) (left : Expr)
    (op : BinaryOp) (right : Expr) :
  Mirrors place (Value.recast place) (expression (limit + 1) (.binary pos left op right))
    (expression (limit + 1) ((Expr.binary pos left op right).recast (Option.map place) true))
  := by
  cases op with
  | and | or =>
      rw [Expr.recast, expression, expression]
      apply mirrors_shortCircuit ih.expression
  | _ =>
      simp only [Expr.recast, expression]
      apply mirrors_proceed (ih.expression left)
      intro v
      apply mirrors_proceed (ih.expression right)
      intro w
      rw [Value.binary_recast]
      apply mirrors_orFail

theorem mirrors_cond (ih : MirrorsAll place limit) (pos : Option Pos) (condition : Expr)
    (consequence : Stmt) (alternative : Option Stmt) :
  Mirrors place (Value.recast place)
    (expression (limit + 1) (.cond pos condition consequence alternative))
    (expression (limit + 1)
      ((Expr.cond pos condition consequence alternative).recast (Option.map place) true))
  := by
  rw [Expr.recast, expression, expression]
  apply mirrors_proceed (ih.expression condition)
  intro v
  cases v with
  | bool b =>
      cases b with
      | true => apply ih.statement consequence
      | false =>
          cases alternative with
          | some s => apply ih.statement s
          | none => apply mirrors_pure
  | _ =>
      simp only [Value.recast, Value.kind, Value.kind_recast]
      apply mirrors_fail rfl

theorem directBuiltin?_recast (callee : Expr) :
  directBuiltin? (callee.recast (Option.map place) true) = directBuiltin? callee
  := by
  cases callee <;> rfl

theorem mirrors_call (ih : MirrorsAll place limit) (pos : Option Pos) (callee : Expr)
    (args : List Expr) :
  Mirrors place (Value.recast place) (expression (limit + 1) (.call pos callee args))
    (expression (limit + 1) ((Expr.call pos callee args).recast (Option.map place) true))
  := by
  rw [Expr.recast, Expr.recastAll_eq_map, expression, expression, directBuiltin?_recast]
  cases directBuiltin? callee with
  | some b =>
      apply mirrors_withAll ih.expression
      intro vs
      apply mirrors_builtin
  | none =>
      apply mirrors_proceed (ih.expression callee)
      intro f
      cases f with
      | fn c =>
          simp only [Value.recast, List.length_map]
          apply mirrors_ite
          · apply mirrors_withAll ih.expression
            intro vs
            apply mirrors_invoke ih.statement
          · apply mirrors_fail rfl
      | builtin n =>
          apply mirrors_withAll ih.expression
          intro vs
          cases Builtin.ofName? n with
          | some b => apply mirrors_builtin
          | none => apply mirrors_throw
      | _ =>
          simp only [Value.recast, Value.kind, Value.kind_recast, Expr.render_recast]
          apply bind_mirrors (mirrors_orRenderFault _)
          intro text
          apply mirrors_fail rfl

theorem mirrors_expression (ih : MirrorsAll place limit) (e : Expr) :
  Mirrors place (Value.recast place) (expression (limit + 1) e)
    (expression (limit + 1) (e.recast (Option.map place) true))
  := by
  cases e with
  | int pos n =>
      rw [Expr.recast, expression, expression]
      exact mirrors_pure (Value.int n)
  | bool pos b =>
      rw [Expr.recast, expression, expression]
      exact mirrors_pure (Value.bool b)
  | str pos s =>
      rw [Expr.recast, expression, expression]
      exact mirrors_pure (Value.str s)
  | ident pos n =>
      rw [Expr.recast, expression, expression]
      apply mirrors_name
  | group pos inner => apply ih.expression inner
  | array pos es =>
      rw [Expr.recast, Expr.recastAll_eq_map, expression, expression]
      apply mirrors_withAll ih.expression
      apply mirrors_array
  | map pos entries =>
      have hkeys : (Expr.recastEntries (Option.map place) true entries).map Prod.fst
          = entries.map Prod.fst := by
        rw [Expr.recastEntries_eq_map, List.map_map]
        rfl
      have hvalues : (Expr.recastEntries (Option.map place) true entries).map Prod.snd
          = (entries.map Prod.snd).map (Expr.recast (Option.map place) true) := by
        rw [Expr.recastEntries_eq_map, List.map_map, List.map_map]
        rfl
      rw [Expr.recast, expression, expression, hkeys, hvalues]
      apply mirrors_withAll ih.expression
      intro vs
      rw [List.zip_map_right]
      apply mirrors_map
  | unary pos op operand =>
      rw [Expr.recast, expression, expression]
      apply mirrors_proceed (ih.expression operand)
      intro v
      rw [Value.unary_recast]
      apply mirrors_orFail
  | binary pos left op right => apply mirrors_binary ih
  | index pos collection position =>
      rw [Expr.recast, expression, expression]
      apply mirrors_proceed (ih.expression collection)
      intro v
      apply mirrors_proceed (ih.expression position)
      intro w
      rw [Value.index_recast]
      apply mirrors_orFail
  | cond pos condition consequence alternative => apply mirrors_cond ih
  | fn pos parameters body => apply mirrors_close
  | call pos callee args => apply mirrors_call ih
  | bare pos => apply mirrors_throw

theorem mirrors_statement (ih : MirrorsAll place limit) (s : Stmt) :
  Mirrors place (Value.recast place) (statement (limit + 1) s)
    (statement (limit + 1) (s.recast (Option.map place) true))
  := by
  cases s with
  | bind pos n e =>
      rw [Stmt.recast, statement, statement]
      apply mirrors_proceed (ih.expression e)
      intro v
      apply bind_mirrors (mirrors_define n v)
      intro _
      apply mirrors_pure
  | ret pos e =>
      rw [Stmt.recast, statement, statement]
      apply mirrors_get
      intro m log
      apply mirrors_ite
      · apply mirrors_fail rfl
      · apply bind_mirrors (ih.expression e)
        intro v
        rw [Value.content_recast]
        exact mirrors_pure (Value.returned v.content)
  | expr pos e => apply ih.expression e
  | block pos body =>
      rw [Stmt.recast, Stmt.recastAll_eq_map, statement, statement]
      apply mirrors_get
      intro m log
      apply bind_mirrors (mirrors_inside m.cursor [])
      intro scope
      apply mirrors_within scope
      apply mirrors_runAll ih.statement
  | bare pos => apply mirrors_throw

/-- All nodes are evaluated alike whatever their positions. -/
theorem mirrorsAll (place : Pos → Pos) (limit : Nat) :
  MirrorsAll place limit
  := by
  induction limit with
  | zero =>
      constructor
      · intro e
        rw [expression, expression]
        apply mirrors_throw
      · intro s
        rw [statement, statement]
        apply mirrors_throw
  | succ limit ih => exact ⟨mirrors_expression ih, mirrors_statement ih⟩

/-- Statements come to the same whatever their positions. -/
theorem mirrors_statements (place : Pos → Pos) (limit : Nat) (ss : List Stmt) :
  Mirrors place (List.map (Value.recast place)) (statements limit ss)
    (statements limit (ss.map (Stmt.recast (Option.map place) true)))
  := by
  induction ss with
  | nil => apply mirrors_pure
  | cons s ss ih =>
      rw [List.map_cons, statements, statements]
      apply bind_mirrors ((mirrorsAll place limit).statement s)
      intro v
      apply bind_mirrors ih
      intro vs
      exact mirrors_pure (v :: vs)

theorem statements_append (limit : Nat) (ss ts : List Stmt) :
  statements limit (ss ++ ts)
    = statements limit ss >>= fun vs => statements limit ts >>= fun ws => pure (vs ++ ws)
  := by
  induction ss with
  | nil => simp [statements]
  | cons s ss ih => simp [statements, ih]

end Eval

end ExprScript
