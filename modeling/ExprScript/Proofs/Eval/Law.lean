import ExprScript.Proofs.Eval.Meets
import ExprScript.Proofs.Value.Every

/-!
# Laws of evaluation

A law says what the parts of all values, the states and the nodes are like, and how the states
before and after are related: by one relation for expressions, and by a wider one for the
statements that are run in a scope.  What a law asks concerns single operations only.  It then
holds of all evaluations: by induction on the limit, with a case for every kind of node.

What is asked of nodes may depend on the state in which their evaluation begins, and on the limit.
A regime asks it of the evaluations that begin in the course of others, and a law of the nodes
alone.
-/

namespace ExprScript

namespace Eval

open Stateful

/-- The states that a law is about: all parts of bound values have the property `A`, and the
state has the property `J`. -/
structure Sound (A : Heap → Value → Prop) (J : Machine → Prop) (m : Machine) : Prop where
  state : J m
  bound : m.heap.Every (Value.Every (A m.heap))

/-- A value all of whose parts have the property that a law asks of parts. -/
abbrev Fine (A : Heap → Value → Prop) (h : Heap) (v : Value) : Prop := v.Every (A h)

/-- What is asked of single operations: `E` of faults, `A` of the parts of values and `J` of
states.  Expressions relate states by `R`, statements by `S`. -/
structure Basis (E : Fault → Prop) (A : Heap → Value → Prop) (J : Machine → Prop)
    (R S : Machine → Machine → Prop) : Prop where
  closed : ∀ h, Value.Closed (A h)
  inner : Steady A R
  outer : Steady A S
  widen : ∀ {m m'}, R m m' → S m m'
  stays : ∀ {m m'}, S m m' → Stays m m'
  /-- Numbering, printing and logging. -/
  quiet : ∀ {m made out log}, J m → m.made ≤ made →
    J { m with made := made, out := out, log := log }
      ∧ R m { m with made := made, out := out, log := log }
  define : ∀ {m name v}, J m → v.Every (A m.heap) →
    J (m.define name v) ∧ S m (m.define name v)
  enter : ∀ {m outer bindings depth}, J m →
    outer = m.cursor ∨ (∃ c, A m.heap (.fn c) ∧ outer = c.scope) →
    J (m.enter outer bindings depth)
      ∧ ∀ v, A m.heap v → A (m.enter outer bindings depth).heap v
  leave : ∀ {m outer bindings depth m'}, J m → S (m.enter outer bindings depth) m' → J m' →
    J (m.leave m') ∧ R m (m.leave m')
  error : ∀ {cause pos}, cause.isOperation = true → E (.error ⟨cause, pos⟩)
  exhausted : E .exhausted
  unknown : ∀ {h name}, A h (.builtin name) → Builtin.ofName? name = none →
    E (.unknownBuiltin name)
  /-- The texts of what is printed cannot be given. -/
  printed : ∀ {h args limit e}, (∀ v ∈ args, v.Every (A h)) →
    Builtin.line limit args = .error e → E (.ofRender e)

/-- A regime: moreover, `Fit` is asked of the evaluations of nodes within a limit from a state. -/
structure Regime (E : Fault → Prop) (A : Heap → Value → Prop) (J : Machine → Prop)
    (R S : Machine → Machine → Prop) (Fit : Nat → Node → Machine → Prop) : Prop
    extends Basis E A J R S where
  entered : ∀ {limit n m n' m'}, Fit (limit + 1) n m → Enters limit 0 n m n' m' →
    m'.depth = m.depth → Fit limit n' m'
  body : ∀ {limit n m h c vs m₁ s m'}, Fit (limit + 1) n m → A h (.fn c) →
    Applies limit n m (.closure c vs) m₁ →
    Begins limit (c.body.statements.map .stmt) (m₁.call c vs) (.stmt s) m' →
    m'.depth = m.depth + 1 → Fit limit (.stmt s) m'
  length : ∀ {limit n m args m' v}, Fit (limit + 1) n m →
    Applies limit n m (.builtin .len args) m' → Builtin.length args = .ok v → Fine A m'.heap v
  literal : ∀ {limit pos n m}, Fit limit (.expr (.int pos n)) m → A m.heap (.int n)
  close : ∀ {limit pos parameters body m}, J m →
    Fit limit (.expr (.fn pos parameters body)) m →
    A m.heap (.fn ⟨m.made, parameters, body, m.cursor⟩)
  /-- A branch may bind a name only if the two relations do not differ. -/
  branch : ∀ {limit pos condition consequence alternative m s},
    Fit limit (.expr (.cond pos condition consequence alternative)) m →
    s ∈ consequence :: alternative.toList → s.isBind = false ∨ ∀ {m m'}, S m m' → R m m'
  bareExpr : ∀ {limit pos m}, Fit limit (.expr (.bare pos)) m → E (.unsupported .expression)
  bareStmt : ∀ {limit pos m}, Fit limit (.stmt (.bare pos)) m → E (.unsupported .statement)
  stray : ∀ {limit pos e m}, Fit limit (.stmt (.ret pos e)) m → m.depth = 0 →
    E (.error ⟨.strayReturn, pos⟩)
  /-- The text of what is called cannot be given. -/
  rendered : ∀ {limit pos callee args m limit' e}, Fit limit (.expr (.call pos callee args)) m →
    callee.render limit' = .error e → E (.ofRender e)

/-- A law: `Good` is asked of the nodes that are evaluated at some depth. -/
structure Law (E : Fault → Prop) (A : Heap → Value → Prop) (J : Machine → Prop)
    (R S : Machine → Machine → Prop) (Good : Nat → Node → Prop) : Prop
    extends Basis E A J R S where
  length : ∀ {h} (n : Nat), A h (.int n)
  child : ∀ {depth n c}, Good depth n → c ∈ n.children → Good depth c
  literal : ∀ {depth pos n h}, Good depth (.expr (.int pos n)) → A h (.int n)
  close : ∀ {m pos parameters body serial}, J m →
    Good m.depth (.expr (.fn pos parameters body)) →
    A m.heap (.fn ⟨serial, parameters, body, m.cursor⟩)
  body : ∀ {h c depth s}, A h (.fn c) → s ∈ c.body.statements → Good (depth + 1) (.stmt s)
  /-- A branch may bind a name only if the two relations do not differ. -/
  branch : ∀ {depth pos condition consequence alternative s},
    Good depth (.expr (.cond pos condition consequence alternative)) →
    s ∈ consequence :: alternative.toList → s.isBind = false ∨ ∀ {m m'}, S m m' → R m m'
  bareExpr : ∀ {depth pos}, Good depth (.expr (.bare pos)) → E (.unsupported .expression)
  bareStmt : ∀ {depth pos}, Good depth (.stmt (.bare pos)) → E (.unsupported .statement)
  stray : ∀ {pos e}, Good 0 (.stmt (.ret pos e)) → E (.error ⟨.strayReturn, pos⟩)
  /-- The text of what is called cannot be given. -/
  rendered : ∀ {depth pos callee args limit e}, Good depth (.expr (.call pos callee args)) →
    callee.render limit = .error e → E (.ofRender e)

variable {E : Fault → Prop} {A : Heap → Value → Prop} {J : Machine → Prop}
  {R S : Machine → Machine → Prop} {Fit : Nat → Node → Machine → Prop}
  {Good : Nat → Node → Prop} {m : Machine}

/-- A law is a regime that does not look at how evaluations begin. -/
theorem Law.regime (law : Law E A J R S Good) :
  Regime E A J R S (fun _ n m => Good m.depth n)
  where
  toBasis := law.toBasis
  entered hg he hdepth := by
    rw [hdepth]
    apply law.child hg he.mem_children
  body _ hc _ hb hdepth := by
    rw [hdepth]
    apply law.body hc hb.mem_stmt
  length _ _ h := Builtin.every_length law.length h
  literal hg := law.literal hg
  close hJ hg := law.close hJ hg
  branch hg hs := law.branch hg hs
  bareExpr hg := law.bareExpr hg
  bareStmt hg := law.bareStmt hg
  stray hg hdepth := law.stray (hdepth ▸ hg)
  rendered hg he := law.rendered hg he

theorem Steady.every (hR : Steady A R) :
  Steady (Fine A) R
  where
  refl := hR.refl
  trans := hR.trans
  stable h hv := hv.mono fun _ => hR.stable h

theorem holds_of_fine {v : Value} (h : Fine A m.heap v) :
  Holds (Fine A) m v
  := holds_of_value h h.not_returned

/-- A fine value is not on its way out. -/
theorem Meets.holds {I : Machine → Prop} {x : Eval Value}
    (h : Meets E I R (fun m' => Fine A m'.heap) x m) :
  Meets E I R (Holds (Fine A)) x m
  := ⟨h.kept, h.related, fun hv => holds_of_fine (h.result hv), h.fault⟩

namespace Basis

variable (law : Basis E A J R S)

include law

/-! ### Operations -/

theorem sound_quiet {made : Serial} {out : String} {log : Array Event} (hm : Sound A J m)
    (h : m.made ≤ made) :
  Sound A J { m with made := made, out := out, log := log }
  := ⟨(law.quiet hm.state h).1, hm.bound⟩

theorem sound_define {name : String} {v : Value} (hm : Sound A J m) (hv : Fine A m.heap v) :
  Sound A J (m.define name v)
  := by
  obtain ⟨hJ, hS⟩ := law.define hm.state hv
  have hstable : ∀ w, Fine A m.heap w → Fine A (m.define name v).heap w :=
    fun w => law.outer.every.stable hS
  exact ⟨hJ, (hm.bound.mono hstable).set m.cursor name (hstable v hv)⟩

theorem sound_enter {outer : ScopeId} {bindings : List (String × Value)} {depth : Nat}
    (hm : Sound A J m)
    (ho : outer = m.cursor ∨ ∃ c, A m.heap (.fn c) ∧ outer = c.scope)
    (hb : ∀ p ∈ bindings, Fine A m.heap p.2) :
  Sound A J (m.enter outer bindings depth)
  := by
  obtain ⟨hJ, hgrow⟩ : J (m.enter outer bindings depth)
      ∧ ∀ v, A m.heap v → A (m.enter outer bindings depth).heap v := law.enter hm.state ho
  have hstable : ∀ v, Fine A m.heap v → Fine A (m.enter outer bindings depth).heap v :=
    fun v hv => hv.mono hgrow
  refine ⟨hJ, ?_⟩
  apply ((hm.bound.mono hstable).create (some outer)).setAll
  intro p hp
  apply hstable p.2 (hb p hp)

theorem sound_call {c : Closure} {vs : List Value} (hm : Sound A J m) (hc : A m.heap (.fn c))
    (hvs : ∀ v ∈ vs, Fine A m.heap v) :
  Sound A J (m.call c vs)
  := by
  have hrecord : Sound A J (m.record (.called c.parameters (m.depth + 1))) :=
    law.sound_quiet hm (Nat.le_refl _)
  apply law.sound_enter hrecord (.inr ⟨c, hc, rfl⟩)
  intro p hp
  apply hvs p.2 (List.of_mem_zip hp).2

theorem sound_leave {outer : ScopeId} {bindings : List (String × Value)} {depth : Nat}
    {m' : Machine} (hm : Sound A J m) (hS : S (m.enter outer bindings depth) m')
    (hm' : Sound A J m') :
  Sound A J (m.leave m')
  := ⟨(law.leave hm.state hS hm'.state).1, hm'.bound⟩

theorem meets_quiet {α : Type} {P : Machine → α → Prop} {x : Eval α} {a : α} {made : Serial}
    {out : String} {log : Array Event} (hm : Sound A J m)
    (hx : x.run m = .ok a { m with made := made, out := out, log := log })
    (h : m.made ≤ made) (hP : P { m with made := made, out := out, log := log } a) :
  Meets E (Sound A J) R P x m
  := meets_of_ok hx (law.sound_quiet hm h) (law.quiet hm.state h).2 hP

theorem meets_array {vs : List Value} (hm : Sound A J m) (hvs : ∀ v ∈ vs, Fine A m.heap v) :
  Meets E (Sound A J) R (fun m' => Fine A m'.heap) (array vs) m
  := by
  have hrun : (array vs).run m = .ok (.array m.made vs) { m with made := m.made + 1 } := rfl
  apply law.meets_quiet hm hrun (Nat.le_succ _)
  exact .array hvs

theorem meets_map {es : List (String × Value)} (hm : Sound A J m)
    (hes : ∀ p ∈ es, Fine A m.heap p.2) :
  Meets E (Sound A J) R (fun m' => Fine A m'.heap) (map es) m
  := by
  have hrun : (map es).run m = .ok (.map m.made es) { m with made := m.made + 1 } := rfl
  apply law.meets_quiet hm hrun (Nat.le_succ _)
  exact .map hes

theorem meets_close {parameters : List String} {body : Stmt} (hm : Sound A J m)
    (hc : A m.heap (.fn ⟨m.made, parameters, body, m.cursor⟩)) :
  Meets E (Sound A J) R (fun m' => Fine A m'.heap) (Eval.close parameters body) m
  := by
  have hrun : (Eval.close parameters body).run m
      = .ok (.fn ⟨m.made, parameters, body, m.cursor⟩)
          { m with made := m.made + 1, log := m.log.push (.created parameters m.cursor) } := rfl
  apply law.meets_quiet hm hrun (Nat.le_succ _)
  exact .fn hc

theorem meets_print {text : String} (hm : Sound A J m) :
  Meets E (Sound A J) R (fun m' => Fine A m'.heap) (print text >>= fun _ => pure .unit) m
  := by
  have hrun : (print text >>= fun _ => pure .unit : Eval Value).run m
      = .ok .unit { m with out := m.out ++ text } := rfl
  apply law.meets_quiet hm hrun (Nat.le_refl _)
  exact .unit (law.closed _).unit

theorem meets_name {pos : Option Pos} {n : String} (hm : Sound A J m) :
  Meets E (Sound A J) R (fun m' => Fine A m'.heap) (name pos n) m
  := by
  have hR := law.inner
  have hlookup : (lookup? n).run m = .ok (m.heap.get? m.cursor n) m := rfl
  have hget : Meets E (Sound A J) R
      (fun m' o => m'.heap.get? m'.cursor n = o) (lookup? n) m :=
    meets_of_ok hlookup hm (hR.refl m) rfl
  apply hget.bind hR
  intro o m' hm' _ ho
  cases o with
  | some v =>
      apply meets_pure hR hm'
      apply hm'.bound.get? ho
  | none =>
      cases hb : Builtin.ofName? n with
      | some b =>
          apply meets_pure hR hm'
          exact .builtin ((law.closed _).builtin hb)
      | none => apply meets_fail hR hm' (law.error rfl)

theorem meets_builtin {limit : Nat} {pos : Option Pos} {args : List Value} (b : Builtin)
    (hm : Sound A J m) (hargs : ∀ v ∈ args, Fine A m.heap v)
    (hlength : ∀ v, b = .len → Builtin.length args = .ok v → Fine A m.heap v) :
  Meets E (Sound A J) R (fun m' => Fine A m'.heap) (b.call limit pos args) m
  := by
  have hR := law.inner
  -- The elements are found before the array is made, in the same state.
  have helements : ∀ {r : Except EvalCause (List Value)},
      (∀ vs, r = .ok vs → ∀ v ∈ vs, Fine A m.heap v) →
      (∀ cause, r = .error cause → cause.isOperation = true) →
      Meets E (Sound A J) R (fun m' => Fine A m'.heap) (orFail pos r >>= array) m := by
    intro r hr he
    have hvs : Meets E (Sound A J) R (fun m' vs => ∀ v ∈ vs, Fine A m'.heap v)
        (orFail pos r) m := meets_orFail hR hm hr fun cause hc => law.error (he cause hc)
    apply hvs.bind hR
    intro vs m' hm' _ hvs
    apply law.meets_array hm' hvs
  cases b with
  | len =>
      apply meets_orFail hR hm
      · intro v hv
        apply hlength v rfl hv
      · intro cause hc
        apply law.error (Builtin.isOperation_length hc)
  | append =>
      apply helements
      · intro vs hvs
        apply Builtin.every_extended hargs hvs
      · intro cause hc
        apply Builtin.isOperation_extended hc
  | rest =>
      apply helements
      · intro vs hvs
        apply Builtin.every_shortened hargs hvs
      · intro cause hc
        apply Builtin.isOperation_shortened hc
  | _ =>
      apply (meets_orRenderFault hR hm fun e he => law.printed hargs he).bind hR
      intro text m' hm' _ _
      apply law.meets_print hm'

/-! ### Blocks and calls -/

/-- Work inside a new scope, after which the scope and the depth are put back. -/
theorem meets_leave {α : Type} {P : Machine → α → Prop} {x work : Eval α} {m₁ : Machine}
    {outer : ScopeId} {bindings : List (String × Value)} {depth : Nat}
    {back : Machine → Machine} (hm₁ : Sound A J m₁) (hR : R m m₁)
    (hwork : Meets E (Sound A J) S P work (m₁.enter outer bindings depth))
    (hx : x.run m = withFinal back (work.run (m₁.enter outer bindings depth)))
    (hback : ∀ m', m'.depth = depth → back m' = m₁.leave m')
    (hP : ∀ m' a, m'.depth = depth → P m' a → P (m₁.leave m') a) :
  Meets E (Sound A J) R P x m
  := by
  obtain ⟨hkept, hS, hresult, hfault⟩ := hwork
  have hdepth := (law.stays hS).2
  cases hrun : work.run (m₁.enter outer bindings depth) with
  | ok a m' =>
      rw [hrun] at hx hkept hS hdepth
      rw [withFinal, hback m' hdepth] at hx
      apply meets_of_ok hx (law.sound_leave hm₁ hS hkept)
      · apply law.inner.trans hR (law.leave hm₁.state hS hkept.state).2
      · apply hP m' a hdepth (hresult hrun)
  | error e m' =>
      rw [hrun] at hx hkept hS hdepth
      rw [withFinal, hback m' hdepth] at hx
      apply meets_of_error hx (law.sound_leave hm₁ hS hkept)
      · apply law.inner.trans hR (law.leave hm₁.state hS hkept.state).2
      · apply hfault hrun

theorem meets_block {limit : Nat} {pos : Option Pos} {body : List Stmt} (hm : Sound A J m)
    (hbody : Meets E (Sound A J) S (Holds (Fine A)) (runAll (statement limit) .unit body)
      (m.enter m.cursor [] m.depth)) :
  Meets E (Sound A J) R (Holds (Fine A)) (statement (limit + 1) (.block pos body)) m
  := by
  apply law.meets_leave hm (law.inner.refl m) hbody (run_block m limit pos body)
  · intro m' hdepth
    apply Machine.leave_of_depth m hdepth
  · rintro m' v hdepth ⟨hcontent, hinside⟩
    rw [hdepth] at hinside
    exact ⟨hcontent, hinside⟩

theorem meets_invoke {run : Stmt → Eval Value} {c : Closure} {args : List Value}
    (hm : Sound A J m)
    (hbody : Meets E (Sound A J) S (Holds (Fine A)) (runAll run .unit c.body.statements)
      (m.call c args)) :
  Meets E (Sound A J) R (fun m' => Fine A m'.heap) (invoke run c args) m
  := by
  have hle : m.made ≤ m.made := Nat.le_refl _
  have hcontent : Meets E (Sound A J) S (fun m' => Fine A m'.heap)
      (runAll run .unit c.body.statements >>= fun v => pure v.content) (m.call c args) := by
    apply hbody.bind law.outer
    intro v m' hm' _ hv
    apply meets_pure law.outer hm' hv.content
  apply law.meets_leave (law.sound_quiet hm hle) (law.quiet hm.state hle).2 hcontent
    (run_invoke m run c args)
  · intro m' hdepth
    apply Machine.leave_call m hdepth
  · intro m' v _ hv
    apply hv

end Basis

theorem Law.meets_builtin (law : Law E A J R S Good) {limit : Nat} {pos : Option Pos}
    {args : List Value} (b : Builtin) (hm : Sound A J m)
    (hargs : ∀ v ∈ args, Fine A m.heap v) :
  Meets E (Sound A J) R (fun m' => Fine A m'.heap) (b.call limit pos args) m
  := by
  apply law.toBasis.meets_builtin b hm hargs
  intro v _ hv
  apply Builtin.every_length law.length hv

/-! ### All evaluations -/

/-- An operator with two operands is logical, or both its operands are evaluated. -/
theorem expression_binary (limit : Nat) (pos : Option Pos) (left : Expr) (op : BinaryOp)
    (right : Expr) :
  (∃ decisive, Node.opening (.expr (.binary pos left op right)) = [.expr left]
      ∧ (∀ {m m'}, Yields limit (.expr left) m (.bool !decisive) m' →
        Enters limit 0 (.expr (.binary pos left op right)) m (.expr right) m')
      ∧ expression (limit + 1) (.binary pos left op right)
        = shortCircuit (expression limit) op decisive pos left right)
    ∨ Node.opening (.expr (.binary pos left op right)) = [.expr left, .expr right]
      ∧ expression (limit + 1) (.binary pos left op right)
        = (do
            proceed (← expression limit left) fun v => do
              proceed (← expression limit right) fun w => orFail pos (Value.binary op v w))
  := by
  cases op with
  | and => exact .inl ⟨false, rfl, fun h => .and h, by rw [expression]⟩
  | or => exact .inl ⟨true, rfl, fun h => .or h, by rw [expression]⟩
  | _ => exact .inr ⟨rfl, by simp only [expression]⟩

/-- All evaluations within a limit that a regime is about obey it. -/
structure Obeys (E : Fault → Prop) (A : Heap → Value → Prop) (J : Machine → Prop)
    (R S : Machine → Machine → Prop) (Fit : Nat → Node → Machine → Prop) (limit : Nat) :
    Prop where
  expression : ∀ {e m}, Sound A J m → Fit limit (.expr e) m →
    Meets E (Sound A J) R (Holds (Fine A)) (Eval.expression limit e) m
  statement : ∀ {s m}, Sound A J m → Fit limit (.stmt s) m →
    Meets E (Sound A J) S (Holds (Fine A)) (Eval.statement limit s) m
  /-- A statement that binds no name relates states as expressions do. -/
  unbinding : ∀ {s m}, Sound A J m → Fit limit (.stmt s) m → s.isBind = false →
    Meets E (Sound A J) R (Holds (Fine A)) (Eval.statement limit s) m

namespace Regime

variable (law : Regime E A J R S Fit) {limit : Nat}

include law

theorem fit_later {n n' : Node} {m' : Machine} (hg : Fit (limit + 1) n m)
    (he : Enters limit 0 n m n' m') (hR : R m m') :
  Fit limit n' m'
  := law.entered hg he (law.stays (law.widen hR)).2

/-- The expressions that a node enters obey the regime. -/
theorem parts (ih : Obeys E A J R S Fit limit) {n : Node} (hg : Fit (limit + 1) n m) {e : Expr}
    {m' : Machine} (he : Enters limit 0 n m (.expr e) m') (hm' : Sound A J m') (hR : R m m') :
  Meets E (Sound A J) R (Holds (Fine A)) (Eval.expression limit e) m'
  := ih.expression hm' (law.fit_later hg he hR)

theorem meets_runAll {body : List Stmt} (ih : Obeys E A J R S Fit limit) (hm : Sound A J m)
    (hg : ∀ s m', Begins limit (body.map .stmt) m (.stmt s) m' → m'.depth = m.depth →
      Fit limit (.stmt s) m') :
  Meets E (Sound A J) S (Holds (Fine A)) (runAll (Eval.statement limit) .unit body) m
  := by
  apply Eval.meets_runAll law.outer.every hm
  · apply holds_of_fine
    exact .unit (law.closed _).unit
  · intro s m' hb hm' hS
    apply ih.statement hm' (hg s m' hb (law.stays hS).2)

theorem meets_call {pos : Option Pos} {callee : Expr} {args : List Expr}
    (ih : Obeys E A J R S Fit limit) (hm : Sound A J m)
    (hg : Fit (limit + 1) (.expr (.call pos callee args)) m) :
  Meets E (Sound A J) R (Holds (Fine A)) (Eval.expression (limit + 1) (.call pos callee args)) m
  := by
  have hR := law.inner.every
  rw [Eval.expression]
  cases hb : directBuiltin? callee with
  | some b =>
      apply meets_withAll hR hm
      · intro e m' hbegins hm' hr
        apply law.parts ih hg (enters_argument hb hbegins) hm' hr
      · intro vs m' hall hm' _ hvs
        apply Meets.holds
        apply law.meets_builtin b hm' hvs
        rintro v rfl hv
        apply law.length hg (.direct hb hall) hv
  | none =>
      apply (law.parts ih hg (enters_callee hb) hm (hR.refl m)).proceed hR
      intro f m₁ hrun hm₁ hr₁ hret hf
      have hyields : Yields limit (.expr callee) m f m₁ := ⟨hrun, hret⟩
      have hargs : Takes args.length f →
          ∀ e m', Begins limit (args.map .expr) m₁ (.expr e) m' → Sound A J m' → R m₁ m' →
            Meets E (Sound A J) R (Holds (Fine A)) (Eval.expression limit e) m' := by
        intro htakes e m' hbegins hm' hr'
        apply law.parts ih hg (.argument hb hyields htakes hbegins) hm' (hR.trans hr₁ hr')
      cases hf with
      | @fn c hc =>
          dsimp only
          split
          · rename_i harity
            apply meets_withAll hR hm₁ (hargs harity)
            intro vs m₂ hall hm₂ hr₂ hvs
            have hc₂ := law.inner.stable hr₂ hc
            have hdepth := (law.stays (law.widen (hR.trans hr₁ hr₂))).2
            apply Meets.holds
            apply law.meets_invoke hm₂
            apply law.meets_runAll ih (law.sound_call hm₂ hc₂ hvs)
            intro s m' hbegins hdepth'
            apply law.body hg hc₂ (.closure hb hyields harity hall) hbegins
            rw [hdepth', ← hdepth]
            rfl
          · apply meets_fail hR hm₁ (law.error rfl)
      | builtin hname =>
          apply meets_withAll hR hm₁ (hargs trivial)
          intro vs m₂ hall hm₂ _ hvs
          split
          · rename_i b hsome
            apply Meets.holds
            apply law.meets_builtin b hm₂ hvs
            rintro v rfl hv
            apply law.length hg (.builtin hb hyields hall hsome) hv
          · rename_i hnone
            apply meets_throw hR hm₂ (law.unknown hname hnone)
      | _ =>
          apply (meets_orRenderFault hR hm₁ fun e he => law.rendered hg he).bind hR
          intro text m₂ hm₂ _ _
          apply meets_fail hR hm₂ (law.error rfl)

theorem meets_cond {pos : Option Pos} {condition : Expr} {consequence : Stmt}
    {alternative : Option Stmt} (ih : Obeys E A J R S Fit limit) (hm : Sound A J m)
    (hg : Fit (limit + 1) (.expr (.cond pos condition consequence alternative)) m) :
  Meets E (Sound A J) R (Holds (Fine A))
    (Eval.expression (limit + 1) (.cond pos condition consequence alternative)) m
  := by
  have hR := law.inner.every
  have hbranch : ∀ {s m'}, s ∈ consequence :: alternative.toList →
      Enters limit 0 (.expr (.cond pos condition consequence alternative)) m (.stmt s) m' →
      Sound A J m' → R m m' →
      Meets E (Sound A J) R (Holds (Fine A)) (Eval.statement limit s) m' := by
    intro s m' hs he hm' hr
    have hfit := law.fit_later hg he hr
    rcases law.branch hg hs with hbind | hSR
    · apply ih.unbinding hm' hfit hbind
    · apply (ih.statement hm' hfit).mono hSR
  rw [Eval.expression]
  apply (law.parts ih hg (.opening .head) hm (hR.refl m)).proceed hR
  intro v m' hrun hm' hr hret _
  split
  · apply hbranch List.mem_cons_self (.consequence ⟨hrun, hret⟩) hm' hr
  · apply hbranch (List.mem_cons_of_mem _ List.mem_cons_self) (.alternative ⟨hrun, hret⟩) hm' hr
  · apply meets_pure hR hm'
    apply holds_of_fine
    exact .unit (law.closed _).unit
  · apply meets_fail hR hm' (law.error rfl)

theorem meets_binary {pos : Option Pos} {left right : Expr} {op : BinaryOp}
    (ih : Obeys E A J R S Fit limit) (hm : Sound A J m)
    (hg : Fit (limit + 1) (.expr (.binary pos left op right)) m) :
  Meets E (Sound A J) R (Holds (Fine A))
    (Eval.expression (limit + 1) (.binary pos left op right)) m
  := by
  have hR := law.inner.every
  have hopens : ∀ {e m'},
      Begins limit (Node.opening (.expr (.binary pos left op right))) m (.expr e) m' →
      Sound A J m' → R m m' →
      Meets E (Sound A J) R (Holds (Fine A)) (Eval.expression limit e) m' :=
    fun hb => law.parts ih hg (.opening hb)
  rcases expression_binary limit pos left op right with
    ⟨decisive, hopening, hright, hrun⟩ | ⟨hopening, hrun⟩
  · rw [hrun]
    rw [hopening] at hopens
    apply meets_shortCircuit hR (hopens .head hm (hR.refl m)) _ fun kind => law.error rfl
    intro m' hyields hm' hr
    apply law.parts ih hg (hright hyields) hm' hr
  · rw [hrun]
    rw [hopening] at hopens
    apply (hopens .head hm (hR.refl m)).proceed hR
    intro v m₁ hv₁ hm₁ hr₁ hret hv
    apply (hopens (.tail ⟨hv₁, hret⟩ .head) hm₁ hr₁).proceed hR
    intro w m₂ _ hm₂ hr₂ _ hw
    apply meets_orFail hR hm₂
    · intro x hx
      apply holds_of_fine
      apply Value.every_binary (law.closed _) (hR.stable hr₂ hv) hw hx
    · intro cause hc
      apply law.error (Value.isOperation_binary hc)

theorem meets_expression {e : Expr} (ih : Obeys E A J R S Fit limit) (hm : Sound A J m)
    (hg : Fit (limit + 1) (.expr e) m) :
  Meets E (Sound A J) R (Holds (Fine A)) (Eval.expression (limit + 1) e) m
  := by
  have hR := law.inner.every
  have hopens : ∀ {e' m'}, Begins limit (Node.opening (.expr e)) m (.expr e') m' →
      Sound A J m' → R m m' →
      Meets E (Sound A J) R (Holds (Fine A)) (Eval.expression limit e') m' :=
    fun hb => law.parts ih hg (.opening hb)
  cases e with
  | ident pos n =>
      rw [Eval.expression]
      apply (law.meets_name hm).holds
  | int pos n =>
      rw [Eval.expression]
      apply meets_pure hR hm
      apply holds_of_fine
      exact .int (law.literal hg)
  | bool pos b =>
      rw [Eval.expression]
      apply meets_pure hR hm
      apply holds_of_fine
      exact .bool ((law.closed _).bool b)
  | str pos s =>
      rw [Eval.expression]
      apply meets_pure hR hm
      apply holds_of_fine
      exact .str ((law.closed _).str s)
  | array pos es =>
      rw [Eval.expression]
      apply meets_withAll hR hm fun e m' => hopens
      intro vs m' _ hm' _ hvs
      apply (law.meets_array hm' hvs).holds
  | map pos entries =>
      rw [Eval.expression]
      apply meets_withAll hR hm fun e m' => hopens
      intro vs m' _ hm' _ hvs
      apply Meets.holds
      apply law.meets_map hm'
      intro p hp
      apply hvs p.2 (List.of_mem_zip hp).2
  | binary pos left op right => apply law.meets_binary ih hm hg
  | unary pos op operand =>
      rw [Eval.expression]
      apply (hopens .head hm (hR.refl m)).proceed hR
      intro v m' _ hm' _ _ hv
      apply meets_orFail hR hm'
      · intro w hw
        apply holds_of_fine
        apply Value.every_unary (law.closed _) hv hw
      · intro cause hc
        apply law.error (Value.isOperation_unary hc)
  | index pos collection position =>
      rw [Eval.expression]
      apply (hopens .head hm (hR.refl m)).proceed hR
      intro v m₁ hrun hm₁ hr₁ hret hv
      apply (hopens (.tail ⟨hrun, hret⟩ .head) hm₁ hr₁).proceed hR
      intro w m₂ _ hm₂ hr₂ _ _
      apply meets_orFail hR hm₂
      · intro x hx
        apply holds_of_fine
        apply Value.every_index (hR.stable hr₂ hv) hx
      · intro cause hc
        apply law.error (Value.isOperation_index hc)
  | group pos inner =>
      rw [Eval.expression]
      apply hopens .head hm (hR.refl m)
  | call pos callee args => apply law.meets_call ih hm hg
  | cond pos condition consequence alternative => apply law.meets_cond ih hm hg
  | fn pos parameters body =>
      rw [Eval.expression]
      apply (law.meets_close hm (law.close hm.state hg)).holds
  | bare pos =>
      rw [Eval.expression]
      apply meets_throw hR hm (law.bareExpr hg)

theorem meets_ret {pos : Option Pos} {e : Expr} (ih : Obeys E A J R S Fit limit)
    (hm : Sound A J m) (hg : Fit (limit + 1) (.stmt (.ret pos e)) m) :
  Meets E (Sound A J) R (Holds (Fine A)) (Eval.statement (limit + 1) (.ret pos e)) m
  := by
  have hR := law.inner.every
  rw [Eval.statement]
  apply meets_get
  split
  · rename_i hdepth
    apply meets_fail hR hm (law.stray hg hdepth)
  · rename_i hdepth
    apply (law.parts ih hg (.ret hdepth) hm (hR.refl m)).bind hR
    intro v m' hm' hr hv
    apply meets_pure hR hm'
    refine ⟨hv.content, ?_⟩
    intro _
    rw [(law.stays (law.widen hr)).2]
    apply hdepth

theorem meets_unbinding {s : Stmt} (ih : Obeys E A J R S Fit limit) (hm : Sound A J m)
    (hg : Fit (limit + 1) (.stmt s) m) (hs : s.isBind = false) :
  Meets E (Sound A J) R (Holds (Fine A)) (Eval.statement (limit + 1) s) m
  := by
  cases s with
  | bind pos name e => cases hs
  | ret pos e => apply law.meets_ret ih hm hg
  | expr pos e =>
      rw [Eval.statement]
      apply law.parts ih hg (.opening .head) hm (law.inner.refl m)
  | block pos body =>
      apply law.meets_block hm
      apply law.meets_runAll ih
      · apply law.sound_enter hm (.inl rfl)
        intro p hp
        cases hp
      · intro s m' hb hdepth
        apply law.entered hg (.block hb) hdepth
  | bare pos =>
      rw [Eval.statement]
      apply meets_throw law.inner hm (law.bareStmt hg)

theorem meets_bind {pos : Option Pos} {name : String} {e : Expr}
    (ih : Obeys E A J R S Fit limit) (hm : Sound A J m)
    (hg : Fit (limit + 1) (.stmt (.bind pos name e)) m) :
  Meets E (Sound A J) S (Holds (Fine A)) (Eval.statement (limit + 1) (.bind pos name e)) m
  := by
  have hvalue : Meets E (Sound A J) R (Holds (Fine A)) (Eval.expression limit e) m :=
    law.parts ih hg (.opening .head) hm (law.inner.refl m)
  rw [Eval.statement]
  apply (hvalue.mono law.widen).proceed law.outer.every
  intro v m' _ hm' _ _ hv
  have hdefine : (Eval.define name v >>= fun _ => pure .unit : Eval Value).run m'
      = .ok .unit (m'.define name v) := rfl
  apply meets_of_ok hdefine (law.sound_define hm' hv) (law.define hm'.state hv).2
  apply holds_of_fine
  exact .unit (law.closed _).unit

/-- A regime holds of all evaluations that it is about. -/
theorem obeys (limit : Nat) :
  Obeys E A J R S Fit limit
  := by
  induction limit with
  | zero =>
      constructor
      · intro e m hm _
        rw [Eval.expression]
        apply meets_throw law.inner hm law.exhausted
      · intro s m hm _
        rw [Eval.statement]
        apply meets_throw law.outer hm law.exhausted
      · intro s m hm _ _
        rw [Eval.statement]
        apply meets_throw law.inner hm law.exhausted
  | succ limit ih =>
      constructor
      · intro e m hm hg
        apply law.meets_expression ih hm hg
      · intro s m hm hg
        cases hs : s.isBind with
        | true =>
            cases s with
            | bind pos name e => apply law.meets_bind ih hm hg
            | _ => cases hs
        | false => apply (law.meets_unbinding ih hm hg hs).mono law.widen
      · intro s m hm hg hs
        apply law.meets_unbinding ih hm hg hs

/-- A regime holds of the statements of a program. -/
theorem meets_statements {ss : List Stmt} (hm : Sound A J m)
    (hg : ∀ s m', Starts limit ss m s m' → m'.depth = m.depth → Fit limit (.stmt s) m') :
  Meets E (Sound A J) S (fun m' vs => ∀ v ∈ vs, Holds (Fine A) m' v) (statements limit ss) m
  := by
  induction ss generalizing m with
  | nil =>
      apply meets_pure law.outer hm
      intro v hv
      cases hv
  | cons s ss ih =>
      apply ((law.obeys limit).statement hm (hg s m starts_head rfl)).witnessed.bind law.outer
      rintro v m₁ hm₁ hS₁ ⟨hrun, hv⟩
      have hss : Meets E (Sound A J) S (fun m' vs => ∀ v ∈ vs, Holds (Fine A) m' v)
          (statements limit ss) m₁ := by
        apply ih hm₁
        intro t m' hstarts hdepth
        apply hg t m' (hstarts.tail hrun) (hdepth.trans (law.stays hS₁).2)
      apply hss.bind law.outer
      intro vs m₂ hm₂ hS₂ hvs
      apply meets_pure law.outer hm₂
      intro w hw
      rcases List.mem_cons.mp hw with rfl | hw
      · refine ⟨law.outer.every.stable hS₂ hv.content, ?_⟩
        rw [(law.stays hS₂).2]
        apply hv.inside
      · apply hvs w hw

end Regime

namespace Law

variable (law : Law E A J R S Good) {limit : Nat}

include law

/-- A law holds of all evaluations. -/
theorem obeys (limit : Nat) :
  Obeys E A J R S (fun _ n m => Good m.depth n) limit
  := law.regime.obeys limit

/-- A law holds of the statements of a program. -/
theorem meets_statements {ss : List Stmt} (hm : Sound A J m)
    (hg : ∀ s ∈ ss, Good m.depth (.stmt s)) :
  Meets E (Sound A J) S (fun m' vs => ∀ v ∈ vs, Holds (Fine A) m' v) (statements limit ss) m
  := by
  apply law.regime.meets_statements hm
  rintro s m' ⟨rfl, -⟩ hdepth
  rw [hdepth]
  apply hg s (List.mem_append_right _ List.mem_cons_self)

end Law

end Eval

end ExprScript
