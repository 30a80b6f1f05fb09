import ExprScript.Proofs.Eval.Law

/-!
# Faults are not caught

A fault that an evaluation comes to on its way is what the whole evaluation comes to.  Scopes and
calls are left, and nothing else is done after it.
-/

namespace ExprScript.Eval

open Stateful

variable {α β : Type} {limit : Nat} {f : Fault} {m m₁ m' : Machine}

/-- From `m` the evaluation comes to a fault, in the state `m'` but for the current scope and the
depth. -/
def Fails (x : Eval α) (m : Machine) (f : Fault) (m' : Machine) : Prop :=
  ∃ cursor depth, x.run m = .error f { m' with cursor := cursor, depth := depth }

theorem fails_of_error {x : Eval α} (h : x.run m = .error f m') :
  Fails x m f m'
  := ⟨m'.cursor, m'.depth, h⟩

/-! ### Sequences -/

theorem Fails.bind {x : Eval α} (h : Fails x m f m') (g : α → Eval β) :
  Fails (x >>= g) m f m'
  := by
  obtain ⟨cursor, depth, h⟩ := h
  exact ⟨cursor, depth, run_bind_of_error h⟩

theorem Fails.after {x : Eval α} {g : α → Eval β} {a : α} (hx : x.run m = .ok a m₁)
    (h : Fails (g a) m₁ f m') :
  Fails (x >>= g) m f m'
  := by
  obtain ⟨cursor, depth, h⟩ := h
  exact ⟨cursor, depth, (run_bind_of_ok hx).trans h⟩

theorem Fails.proceed {n : Node} {next : Value → Eval Value} {v : Value}
    (hn : Yields limit n m v m₁) (h : Fails (next v) m₁ f m') :
  Fails (node limit n >>= fun v => Eval.proceed v next) m f m'
  := by
  apply Fails.after hn.run
  rw [Eval.proceed, hn.goes]
  apply h

/-- A fault inside a scope or a call stays a fault outside. -/
theorem Fails.withFinal {x y : Eval α} {back : Machine → Machine}
    (hback : ∀ m, ∃ cursor depth, back m = { m with cursor := cursor, depth := depth })
    (hx : x.run m = Stateful.withFinal back (y.run m₁)) (h : Fails y m₁ f m') :
  Fails x m f m'
  := by
  obtain ⟨cursor, depth, h⟩ := h
  obtain ⟨cursor', depth', hback⟩ := hback { m' with cursor := cursor, depth := depth }
  rw [h, Stateful.withFinal, hback] at hx
  exact ⟨cursor', depth', hx⟩

/-! ### Lists of nodes -/

theorem Fails.gather {es : List Expr} {n : Node} (hb : Begins limit (es.map .expr) m n m₁)
    (h : Fails (node limit n) m₁ f m') :
  Fails (gather (expression limit) es) m f m'
  := by
  induction es generalizing m with
  | nil => cases hb
  | cons e es ih =>
      cases hb with
      | head => apply h.bind
      | tail hy hb =>
          apply Fails.after hy.run
          rw [hy.goes]
          apply (ih hb).bind

theorem Fails.withAll {es : List Expr} {n : Node} (hb : Begins limit (es.map .expr) m n m₁)
    (h : Fails (node limit n) m₁ f m') (next : List Value → Eval Value) :
  Fails (withAll (expression limit) es next) m f m'
  := (h.gather hb).bind _

theorem Fails.runAll {ss : List Stmt} {n : Node} (hb : Begins limit (ss.map .stmt) m n m₁)
    (h : Fails (node limit n) m₁ f m') (last : Value) :
  Fails (runAll (statement limit) last ss) m f m'
  := by
  induction ss generalizing m last with
  | nil => cases hb
  | cons s ss ih =>
      cases hb with
      | head => apply h.bind
      | tail hy hb =>
          apply Fails.after hy.run
          rw [hy.goes]
          apply ih hb

theorem Fails.invoke {c : Closure} {args : List Value} {n : Node}
    (hb : Begins limit (c.body.statements.map .stmt) (m.call c args) n m₁)
    (h : Fails (node limit n) m₁ f m') :
  Fails (invoke (statement limit) c args) m f m'
  := by
  apply Fails.withFinal _ (run_invoke m (statement limit) c args) ((h.runAll hb .unit).bind _)
  exact fun m₂ => ⟨_, _, rfl⟩

/-! ### Nodes -/

theorem begins_singleton {x n : Node} (h : Begins limit [x] m n m₁) :
  n = x ∧ m₁ = m
  := by
  cases h with
  | head => exact ⟨rfl, rfl⟩
  | tail _ h => cases h

/-- Of two operands the second one begins when the first one has a value. -/
theorem Fails.operands {left right : Expr} {n : Node}
    (hb : Begins limit [.expr left, .expr right] m n m₁) (h : Fails (node limit n) m₁ f m')
    (next : Value → Value → Eval Value) :
  Fails (expression limit left >>= fun v => Eval.proceed v fun v =>
    expression limit right >>= fun w => Eval.proceed w (next v)) m f m'
  := by
  cases hb with
  | head => apply h.bind
  | tail hy hb =>
      obtain ⟨rfl, rfl⟩ := begins_singleton hb
      apply Fails.proceed hy
      apply h.bind

/-- A fault in a part that is evaluated first. -/
theorem Fails.opening {n n' : Node} (hb : Begins limit n.opening m n' m₁)
    (h : Fails (node limit n') m₁ f m') :
  Fails (node (limit + 1) n) m f m'
  := by
  have hsingle : ∀ {x : Node}, n.opening = [x] → Fails (node limit x) m f m' := by
    intro x hx
    rw [hx] at hb
    obtain ⟨rfl, rfl⟩ := begins_singleton hb
    apply h
  cases n with
  | stmt s =>
      cases s with
      | bind pos name e =>
          rw [node, statement]
          apply (hsingle rfl).bind
      | expr pos e =>
          rw [node, statement]
          apply hsingle rfl
      | ret | block | bare => cases hb
  | expr e =>
      rw [node]
      cases e with
      | int | bool | str | ident | fn | bare => cases hb
      | group pos inner =>
          rw [expression]
          apply hsingle rfl
      | array pos es | map pos es =>
          rw [expression]
          apply h.withAll hb
      | unary pos op operand | cond pos condition consequence alternative =>
          rw [expression]
          apply (hsingle rfl).bind
      | index pos collection position =>
          rw [expression]
          apply h.operands hb
      | binary pos left op right =>
          rcases expression_binary limit pos left op right with
            ⟨decisive, hopening, -, hrun⟩ | ⟨hopening, hrun⟩
          · rw [hrun]
            apply (hsingle hopening).bind
          · rw [hopening] at hb
            rw [hrun]
            apply h.operands hb
      | call pos callee args =>
          rw [expression]
          cases hdirect : directBuiltin? callee with
          | some b =>
              rw [Node.opening, hdirect] at hb
              apply h.withAll hb
          | none =>
              have hopening : Node.opening (.expr (.call pos callee args)) = [.expr callee] := by
                rw [Node.opening, hdirect]
                rfl
              apply (hsingle hopening).bind

/-- What a node enters fails only if the node does. -/
theorem Enters.fails {calls : Nat} {n n' : Node} (he : Enters limit calls n m n' m₁)
    (h : Fails (node limit n') m₁ f m') :
  Fails (node (limit + 1) n) m f m'
  := by
  cases he with
  | opening hb => apply h.opening hb
  | ret hdepth =>
      rw [node, statement]
      apply Fails.after (EStateM.run_get m)
      rw [if_neg hdepth]
      apply h.bind
  | @block pos body _ _ _ hb =>
      apply Fails.withFinal _ (run_block m limit pos body) (h.runAll hb .unit)
      exact fun m₂ => ⟨_, _, rfl⟩
  | and hy | or hy =>
      rw [node, expression]
      apply Fails.proceed hy
      apply h.bind
  | consequence hy | alternative hy =>
      rw [node, expression]
      apply Fails.proceed hy
      apply h
  | @argument pos callee args _ v _ _ _ hdirect hy htakes hb =>
      rw [node, expression, hdirect]
      apply Fails.proceed hy
      cases v with
      | fn c =>
          have harity : args.length = c.parameters.length := htakes
          dsimp only
          rw [if_pos harity]
          apply h.withAll hb
      | builtin name => apply h.withAll hb
      | _ => cases htakes
  | @body pos callee args _ c _ vs m₂ _ _ hdirect hy harity hvs hb =>
      rw [node, expression, hdirect]
      apply Fails.proceed hy
      dsimp only
      rw [if_pos harity]
      apply Fails.after hvs
      apply h.invoke hb

theorem Reaches.fails {calls limit' : Nat} {n n' : Node} (hr : Reaches calls limit n m limit' n' m₁)
    (h : Fails (node limit' n') m₁ f m') :
  Fails (node limit n) m f m'
  := by
  induction hr with
  | refl => apply h
  | step he _ ih => apply he.fails (ih h)

/-- A fault that running statements comes to on the way is what it comes to. -/
theorem Visits.fails {ss : List Stmt} {calls limit' : Nat} {n : Node}
    (hv : Visits limit ss m calls limit' n m₁) (h : Fails (node limit' n) m₁ f m') :
  Fails (statements limit ss) m f m'
  := by
  obtain @⟨before, s, after, vs, m₂, rfl, hbefore, hreaches⟩ := hv
  induction before generalizing m vs with
  | nil =>
      cases hbefore
      apply (hreaches.fails h).bind
  | cons t before ih =>
      obtain ⟨v, m₃, hv, hbefore⟩ := run_bind_eq_ok.mp hbefore
      obtain ⟨vs, m₄, hbefore, hvs⟩ := run_bind_eq_ok.mp hbefore
      cases hvs
      apply Fails.after hv
      apply (ih hbefore).bind

end ExprScript.Eval
