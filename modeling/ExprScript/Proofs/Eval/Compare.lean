import ExprScript.Proofs.Eval.Reach
import ExprScript.Proofs.Tree.Grouping
import ExprScript.Proofs.Value.Alike

/-!
# Comparing two evaluations

Two evaluations are started in states that differ in serial numbers and in the bodies of functions
at most, each within a limit of its own.  One of them leads.  Unless its limit is used up, both end
in such states again, with results that are alike or with the same fault.  This is carried through
every way of putting evaluations together.  Of each part of a sequence it is known how the parts
before it have run in the first evaluation.
-/

namespace ExprScript

open Stateful

/-! ### States -/

/-- The states differ in serial numbers and in the bodies of functions at most, and these are
related.  So are the numbers that the two states will give out. -/
structure Machine.Alike (B : Likeness) (m m' : Machine) : Prop where
  heap : m.heap.Alike B m'.heap
  cursor : m.cursor = m'.cursor
  depth : m.depth = m'.depth
  made : ∀ k, B.serial (m.made + k) (m'.made + k)
  out : m.out = m'.out
  log : m.log = m'.log

variable {B : Likeness}

namespace Machine.Alike

variable {m m' : Machine}

theorem refl (hB : B.Reflexive) (m : Machine) :
  m.Alike B m
  := ⟨.refl hB m.heap, rfl, rfl, fun _ => hB.serial _, rfl, rfl⟩

theorem get? (hm : m.Alike B m') (name : String) :
  Option.Rel (Value.Alike B) (m.heap.get? m.cursor name) (m'.heap.get? m'.cursor name)
  := by
  rw [← hm.cursor]
  apply hm.heap.get?

theorem define (hm : m.Alike B m') (name : String) {v w : Value} (hvw : v.Alike B w) :
  (m.define name v).Alike B (m'.define name w)
  := by
  refine ⟨?_, hm.cursor, hm.depth, hm.made, hm.out, hm.log⟩
  rw [Machine.define, Machine.define, ← hm.cursor]
  apply hm.heap.set m.cursor name hvw

theorem record (hm : m.Alike B m') (event : Event) :
  (m.record event).Alike B (m'.record event)
  := ⟨hm.heap, hm.cursor, hm.depth, hm.made, hm.out, congrArg (·.push event) hm.log⟩

theorem enter (hm : m.Alike B m') (outer : ScopeId) {bindings bindings' : Dict Value}
    (hbindings : Dict.Alike (Value.Alike B) bindings bindings') (depth : Nat) :
  (m.enter outer bindings depth).Alike B (m'.enter outer bindings' depth)
  := by
  refine ⟨?_, hm.heap.size, rfl, hm.made, hm.out, hm.log⟩
  rw [Machine.enter, Machine.enter, ← hm.heap.size]
  apply (hm.heap.create (some outer)).setAll m.heap.size hbindings

/-- Alike closures are called in alike states. -/
theorem call (hm : m.Alike B m') {c d : Closure} (hcd : c.Alike B d) {args args' : List Value}
    (hargs : List.Forall₂ (Value.Alike B) args args') :
  (m.call c args).Alike B (m'.call d args')
  := by
  rw [Machine.call, Machine.call, ← hcd.parameters, ← hcd.scope, ← hm.depth]
  apply (hm.record _).enter c.scope
  apply Dict.alike_zip c.parameters hargs

end Machine.Alike

namespace Eval

variable {α β γ δ : Type} {lead : Leader} {P : α → β → Prop} {Q : γ → δ → Prop} {m m' : Machine}

/-- Two runs end in alike states, with related results or the same fault, unless the limit of the
one that leads is used up. -/
inductive Ends (B : Likeness) (P : α → β → Prop) :
    Leader → EStateM.Result Fault Machine α → EStateM.Result Fault Machine β → Prop
  | ok {lead a b m m'} : P a b → m.Alike B m' → Ends B P lead (.ok a m) (.ok b m')
  | fault {lead e m m'} : m.Alike B m' → Ends B P lead (.error e m) (.error e m')
  | grouped {m r} : Ends B P .grouped (.error .exhausted m) r
  | ungrouped {r m} : Ends B P .ungrouped r (.error .exhausted m)

/-! ### Sequences -/

/-- The first part of a sequence comes with the run of the first evaluation. -/
theorem Ends.bind {x : Eval α} {y : Eval β} {f : α → Eval γ} {g : β → Eval δ}
    (hx : Ends B P lead (x.run m) (y.run m'))
    (hf : ∀ a b m₁ m₁', x.run m = .ok a m₁ → P a b → m₁.Alike B m₁' →
      Ends B Q lead ((f a).run m₁) ((g b).run m₁')) :
  Ends B Q lead ((x >>= f).run m) ((y >>= g).run m')
  := by
  rw [EStateM.run_bind, EStateM.run_bind]
  generalize hr : x.run m = r at hx
  generalize y.run m' = r' at hx
  cases hx with
  | ok hab hm => exact hf _ _ _ _ hr hab hm
  | fault hm => exact .fault hm
  | grouped => exact .grouped
  | ungrouped => exact .ungrouped

theorem Ends.withFinal {r : EStateM.Result Fault Machine α} {r' : EStateM.Result Fault Machine β}
    (h : Ends B P lead r r') {f g : Machine → Machine}
    (hfg : ∀ {m m'}, m.Alike B m' → (f m).Alike B (g m')) :
  Ends B P lead (Stateful.withFinal f r) (Stateful.withFinal g r')
  := by
  cases h with
  | ok hab hm => exact .ok hab (hfg hm)
  | fault hm => exact .fault (hfg hm)
  | grouped => exact .grouped
  | ungrouped => exact .ungrouped

theorem Ends.proceed {x y : Eval Value} {f g : Value → Eval Value}
    (hx : Ends B (Value.Alike B) lead (x.run m) (y.run m'))
    (hf : ∀ v w m₁ m₁', x.run m = .ok v m₁ → v.isReturned = false → v.Alike B w →
      m₁.Alike B m₁' → Ends B (Value.Alike B) lead ((f v).run m₁) ((g w).run m₁')) :
  Ends B (Value.Alike B) lead ((x >>= fun v => proceed v f).run m)
    ((y >>= fun w => proceed w g).run m')
  := by
  apply hx.bind
  intro v w m₁ m₁' hrun hvw hm
  rw [Eval.proceed, Eval.proceed, ← hvw.isReturned_eq]
  cases hret : v.isReturned with
  | true => exact .ok hvw hm
  | false => exact hf v w m₁ m₁' hrun hret hvw hm

/-! ### Single operations -/

theorem ends_orFail (hm : m.Alike B m') (pos : Option Pos) {r : Except EvalCause α}
    {r' : Except EvalCause β} (h : AlikeOutcome P r r') :
  Ends B P lead ((orFail pos r).run m) ((orFail pos r').run m')
  := by
  cases h with
  | ok hab => exact .ok hab hm
  | error cause => exact .fault hm

theorem ends_orRenderFault (hm : m.Alike B m') {r r' : Except RenderFault α}
    (h : lead.Agrees (.error .exhausted) r r') :
  Ends B Eq lead ((orRenderFault r).run m) ((orRenderFault r').run m')
  := by
  cases h with
  | grouped => exact .grouped
  | ungrouped => exact .ungrouped
  | same =>
      cases r with
      | ok a => exact .ok rfl hm
      | error e => exact .fault hm

theorem ends_print (hm : m.Alike B m') (text : String) :
  Ends B Eq lead ((print text).run m) ((print text).run m')
  := .ok rfl ⟨hm.heap, hm.cursor, hm.depth, hm.made, congrArg (· ++ text) hm.out, hm.log⟩

theorem ends_record (hm : m.Alike B m') (event : Event) :
  Ends B Eq lead ((record event).run m) ((record event).run m')
  := .ok rfl (hm.record event)

theorem ends_serial (hm : m.Alike B m') :
  Ends B B.serial lead (serial.run m) (serial.run m')
  := by
  refine .ok (hm.made 0) ⟨hm.heap, hm.cursor, hm.depth, ?_, hm.out, hm.log⟩
  intro k
  have hk := hm.made (1 + k)
  rw [← Nat.add_assoc, ← Nat.add_assoc] at hk
  apply hk

theorem ends_array (hm : m.Alike B m') {vs ws : List Value}
    (h : List.Forall₂ (Value.Alike B) vs ws) :
  Ends B (Value.Alike B) lead ((array vs).run m) ((array ws).run m')
  := by
  apply (ends_serial hm).bind
  intro i j m₁ m₁' _ hij hm₁
  exact .ok (Value.alike_array hij h) hm₁

theorem ends_map (hm : m.Alike B m') {es fs : Dict Value}
    (h : Dict.Alike (Value.Alike B) es fs) :
  Ends B (Value.Alike B) lead ((map es).run m) ((map fs).run m')
  := by
  apply (ends_serial hm).bind
  intro i j m₁ m₁' _ hij hm₁
  exact .ok (Value.alike_map hij h) hm₁

theorem ends_close (hm : m.Alike B m') (parameters : List String) {body body' : Stmt}
    (h : B.body body body') :
  Ends B (Value.Alike B) lead ((close parameters body).run m) ((close parameters body').run m')
  := by
  unfold close
  rw [run_get_bind, run_get_bind, ← hm.cursor]
  apply (ends_record hm (.created parameters m.cursor)).bind
  intro _ _ m₁ m₁' _ _ hm₁
  apply (ends_serial hm₁).bind
  intro i j m₂ m₂' _ hij hm₂
  exact .ok (.fn ⟨hij, rfl, rfl, h⟩) hm₂

theorem ends_name (hm : m.Alike B m') (pos : Option Pos) (n : String) :
  Ends B (Value.Alike B) lead ((name pos n).run m) ((name pos n).run m')
  := by
  have hlookup : Ends B (Option.Rel (Value.Alike B)) lead ((lookup? n).run m)
      ((lookup? n).run m') := .ok (hm.get? n) hm
  apply hlookup.bind
  intro v w m₁ m₁' _ hvw hm₁
  cases hvw with
  | some hvw => exact .ok hvw hm₁
  | none =>
      dsimp only
      split
      · exact .ok (.builtin n) hm₁
      · exact .fault hm₁

theorem ends_logical (hm : m.Alike B m') (op : BinaryOp) (pos : Option Pos) {v w : Value}
    (hvw : v.Alike B w) :
  Ends B Eq lead ((logical op pos v).run m) ((logical op pos w).run m')
  := by
  have hkind := hvw.kind_eq
  cases hvw with
  | bool b => exact .ok rfl hm
  | _ =>
      simp only [logical, hkind]
      exact .fault hm

theorem ends_builtin (hm : m.Alike B m') {limit limit' : Nat} (pos : Option Pos)
    {args args' : List Value} (h : List.Forall₂ (Value.Alike B) args args')
    (hline : lead.Agrees (.error .exhausted) (Builtin.line limit args)
      (Builtin.line limit' args')) (b : Builtin) :
  Ends B (Value.Alike B) lead ((b.call limit pos args).run m) ((b.call limit' pos args').run m')
  := by
  cases b with
  | len => exact ends_orFail hm pos (Value.respected_alike.length h)
  | append =>
      apply (ends_orFail hm pos (Value.respected_alike.extended h)).bind
      intro vs ws m₁ m₁' _ hvs hm₁
      apply ends_array hm₁ hvs
  | rest =>
      apply (ends_orFail hm pos (Value.respected_alike.shortened h)).bind
      intro vs ws m₁ m₁' _ hvs hm₁
      apply ends_array hm₁ hvs
  | print | println =>
      apply (ends_orRenderFault hm hline).bind
      rintro text _ m₁ m₁' - rfl hm₁
      apply (ends_print hm₁ _).bind
      intro _ _ m₂ m₂' _ _ hm₂
      exact .ok .unit hm₂

/-! ### Lists of nodes -/

/-- What was gathered is alike. -/
inductive Gathered.Alike (B : Likeness) : Gathered → Gathered → Prop
  | values {vs ws} : List.Forall₂ (Value.Alike B) vs ws → Alike B (.values vs) (.values ws)
  | returned {v w} : v.Alike B w → Alike B (.returned v) (.returned w)

variable {limit limit' : Nat} {f : Expr → Expr} {g : Stmt → Stmt}

theorem ends_gather (hm : m.Alike B m') {es : List Expr}
    (h : ∀ e m₁ m₁', Begins limit (es.map .expr) m (.expr e) m₁ → m₁.Alike B m₁' →
      Ends B (Value.Alike B) lead ((expression limit e).run m₁)
        ((expression limit' (f e)).run m₁')) :
  Ends B (Gathered.Alike B) lead ((gather (expression limit) es).run m)
    ((gather (expression limit') (es.map f)).run m')
  := by
  induction es generalizing m m' with
  | nil => exact .ok (.values .nil) hm
  | cons e es ih =>
      apply (h e m m' .head hm).bind
      intro v w m₁ m₁' hrun hvw hm₁
      rw [← hvw.isReturned_eq]
      cases hret : v.isReturned with
      | true => exact .ok (.returned hvw) hm₁
      | false =>
          have hes := ih hm₁ fun e m₂ m₂' hb => h e m₂ m₂' (.tail ⟨hrun, hret⟩ hb)
          apply hes.bind
          intro a b m₂ m₂' _ hab hm₂
          cases hab with
          | values hvs => exact .ok (.values (.cons hvw hvs)) hm₂
          | returned hvw => exact .ok (.returned hvw) hm₂

theorem ends_withAll (hm : m.Alike B m') {es : List Expr} {next next' : List Value → Eval Value}
    (h : ∀ e m₁ m₁', Begins limit (es.map .expr) m (.expr e) m₁ → m₁.Alike B m₁' →
      Ends B (Value.Alike B) lead ((expression limit e).run m₁)
        ((expression limit' (f e)).run m₁'))
    (hnext : ∀ vs ws m₁ m₁', YieldsAll limit es m vs m₁ →
      List.Forall₂ (Value.Alike B) vs ws → m₁.Alike B m₁' →
      Ends B (Value.Alike B) lead ((next vs).run m₁) ((next' ws).run m₁')) :
  Ends B (Value.Alike B) lead ((withAll (expression limit) es next).run m)
    ((withAll (expression limit') (es.map f) next').run m')
  := by
  apply (ends_gather hm h).bind
  intro a b m₁ m₁' hrun hab hm₁
  cases hab with
  | values hvs => exact hnext _ _ m₁ m₁' hrun hvs hm₁
  | returned hvw => exact .ok hvw hm₁

theorem ends_runAll (hm : m.Alike B m') {ss : List Stmt} {last last' : Value}
    (hlast : last.Alike B last')
    (h : ∀ s m₁ m₁', Begins limit (ss.map .stmt) m (.stmt s) m₁ → m₁.Alike B m₁' →
      Ends B (Value.Alike B) lead ((statement limit s).run m₁)
        ((statement limit' (g s)).run m₁')) :
  Ends B (Value.Alike B) lead ((runAll (statement limit) last ss).run m)
    ((runAll (statement limit') last' (ss.map g)).run m')
  := by
  induction ss generalizing m m' last last' with
  | nil => exact .ok hlast hm
  | cons s ss ih =>
      apply (h s m m' .head hm).bind
      intro v w m₁ m₁' hrun hvw hm₁
      rw [← hvw.isReturned_eq]
      cases hret : v.isReturned with
      | true => exact .ok hvw hm₁
      | false => exact ih hm₁ hvw fun s m₂ m₂' hb => h s m₂ m₂' (.tail ⟨hrun, hret⟩ hb)

/-- The right operand is evaluated only if the left one is a boolean that does not decide. -/
theorem ends_shortCircuit (op : BinaryOp) {decisive : Bool} (pos : Option Pos) {left right : Expr}
    (hleft : Ends B (Value.Alike B) lead ((expression limit left).run m)
      ((expression limit' (f left)).run m'))
    (hright : ∀ m₁ m₁', Yields limit (.expr left) m (.bool !decisive) m₁ → m₁.Alike B m₁' →
      Ends B (Value.Alike B) lead ((expression limit right).run m₁)
        ((expression limit' (f right)).run m₁')) :
  Ends B (Value.Alike B) lead
    ((shortCircuit (expression limit) op decisive pos left right).run m)
    ((shortCircuit (expression limit') op decisive pos (f left) (f right)).run m')
  := by
  apply hleft.proceed
  intro v w m₁ m₁' hrun hret hvw hm₁
  have hkind := hvw.kind_eq
  cases hvw with
  | bool b =>
      dsimp only [logical]
      rw [pure_bind, pure_bind]
      split
      · exact .ok (.bool b) hm₁
      · rename_i hne
        have hb : b = !decisive := Bool.eq_not.mpr hne
        subst hb
        apply (hright m₁ m₁' ⟨hrun, hret⟩ hm₁).proceed
        intro v w m₂ m₂' _ _ hvw hm₂
        apply (ends_logical hm₂ op pos hvw).bind
        intro _ _ m₃ m₃' _ _ hm₃
        exact .ok hvw hm₃
  | _ =>
      simp only [logical, hkind]
      exact .fault hm₁

/-! ### Blocks and calls -/

theorem ends_block (hm : m.Alike B m') {pos : Option Pos} {body body' : List Stmt}
    (h : Ends B (Value.Alike B) lead
      ((runAll (statement limit) .unit body).run (m.enter m.cursor [] m.depth))
      ((runAll (statement limit') .unit body').run (m'.enter m'.cursor [] m'.depth))) :
  Ends B (Value.Alike B) lead ((statement (limit + 1) (.block pos body)).run m)
    ((statement (limit' + 1) (.block pos body')).run m')
  := by
  rw [run_block, run_block]
  apply h.withFinal
  intro m₁ m₁' hm₁
  exact ⟨hm₁.heap, hm.cursor, hm₁.depth, hm₁.made, hm₁.out, hm₁.log⟩

theorem ends_invoke (hm : m.Alike B m') {c d : Closure} {args args' : List Value}
    (h : Ends B (Value.Alike B) lead
      ((runAll (statement limit) .unit c.body.statements).run (m.call c args))
      ((runAll (statement limit') .unit d.body.statements).run (m'.call d args'))) :
  Ends B (Value.Alike B) lead ((invoke (statement limit) c args).run m)
    ((invoke (statement limit') d args').run m')
  := by
  have hcontent := h.bind (f := fun v => pure v.content) (g := fun w => pure w.content)
    (Q := Value.Alike B) fun v w m₁ m₁' _ hvw hm₁ => .ok hvw.content hm₁
  rw [run_invoke, run_invoke]
  apply hcontent.withFinal
  intro m₁ m₁' hm₁
  exact ⟨hm₁.heap, hm.cursor, congrArg (· - 1) hm₁.depth, hm₁.made, hm₁.out, hm₁.log⟩

end Eval

end ExprScript
