import ExprScript.Proofs.Eval.Reach

/-!
# Specifications of evaluations

An evaluation meets a specification in a state when it keeps an invariant, relates the state
before to the state after, however it ends, and has a result or a fault with a given property.
The property of results may speak of the state after.  A relation that is reflexive and
transitive, and along which properties of values persist, is carried through every way of putting
evaluations together.  Of each part of a sequence it is known how the parts before it have run.
-/

namespace ExprScript.Eval

open Stateful

variable {α β : Type} {E : Fault → Prop} {I : Machine → Prop}
  {R R' : Machine → Machine → Prop} {P : Machine → α → Prop} {Q : Machine → β → Prop}
  {V : Heap → Value → Prop} {m : Machine}

/-- From the state `m` the evaluation keeps the invariant `I`, relates the states before and
after by `R`, and has only results with the property `P` and faults with the property `E`. -/
structure Meets (E : Fault → Prop) (I : Machine → Prop) (R : Machine → Machine → Prop)
    (P : Machine → α → Prop) (x : Eval α) (m : Machine) : Prop where
  kept : I (final (x.run m))
  related : R m (final (x.run m))
  result : ∀ {a m'}, x.run m = .ok a m' → P m' a
  fault : ∀ {e m'}, x.run m = .error e m' → E e

/-- A relation that holds between a state and itself, and from step to step, and along which
values keep a property. -/
structure Steady (V : Heap → Value → Prop) (R : Machine → Machine → Prop) : Prop where
  refl : ∀ m, R m m
  trans : ∀ {m₁ m₂ m₃}, R m₁ m₂ → R m₂ m₃ → R m₁ m₃
  stable : ∀ {m m' v}, R m m' → V m.heap v → V m'.heap v

/-! ### Sequences -/

theorem Meets.mono {x : Eval α} (h : Meets E I R P x m) (hR : ∀ {m m'}, R m m' → R' m m') :
  Meets E I R' P x m
  := ⟨h.kept, hR h.related, h.result, h.fault⟩

/-- What a specification says of a result. -/
theorem Meets.of_ok {x : Eval α} {a : α} {m' : Machine} (h : Meets E I R P x m)
    (hx : x.run m = .ok a m') :
  I m' ∧ R m m' ∧ P m' a
  := by
  have hkept := h.kept
  have hrelated := h.related
  rw [hx] at hkept hrelated
  exact ⟨hkept, hrelated, h.result hx⟩

theorem meets_of_ok {x : Eval α} {a : α} {m' : Machine} (hx : x.run m = .ok a m') (hI : I m')
    (hR : R m m') (hP : P m' a) :
  Meets E I R P x m
  := by
  constructor
  · rw [hx]
    apply hI
  · rw [hx]
    apply hR
  · intro b m'' hb
    cases hx.symm.trans hb
    apply hP
  · intro e m'' he
    cases hx.symm.trans he

theorem meets_of_error {x : Eval α} {e : Fault} {m' : Machine} (hx : x.run m = .error e m')
    (hI : I m') (hR : R m m') (hE : E e) :
  Meets E I R P x m
  := by
  constructor
  · rw [hx]
    apply hI
  · rw [hx]
    apply hR
  · intro b m'' hb
    cases hx.symm.trans hb
  · intro e' m'' he
    cases hx.symm.trans he
    apply hE

theorem meets_pure (hR : Steady V R) (hI : I m) {a : α} (h : P m a) :
  Meets E I R P (pure a) m
  := meets_of_ok rfl hI (hR.refl m) h

theorem meets_throw (hR : Steady V R) (hI : I m) {e : Fault} (hE : E e) :
  Meets E I R P (throw e) m
  := meets_of_error rfl hI (hR.refl m) hE

theorem Meets.bind (hR : Steady V R) {x : Eval α} {f : α → Eval β} (hx : Meets E I R P x m)
    (hf : ∀ a m', I m' → R m m' → P m' a → Meets E I R Q (f a) m') :
  Meets E I R Q (x >>= f) m
  := by
  obtain ⟨hI, hr, hP, hE⟩ := hx
  cases hrun : x.run m with
  | ok a m' =>
      rw [hrun] at hI hr
      have h := hf a m' hI hr (hP hrun)
      have hbind : (x >>= f).run m = (f a).run m' := run_bind_of_ok hrun
      constructor
      · rw [hbind]
        apply h.kept
      · rw [hbind]
        apply hR.trans hr h.related
      · rw [hbind]
        intro b m'' hb
        apply h.result hb
      · rw [hbind]
        intro e m'' he
        apply h.fault he
  | error e m' =>
      rw [hrun] at hI hr
      apply meets_of_error (run_bind_of_error hrun) hI hr (hE hrun)

/-- A result comes with the run that has it. -/
theorem Meets.witnessed {x : Eval α} (h : Meets E I R P x m) :
  Meets E I R (fun m' a => x.run m = .ok a m' ∧ P m' a) x m
  := ⟨h.kept, h.related, fun ha => ⟨ha, h.result ha⟩, h.fault⟩

theorem meets_get {f : Machine → Eval α} (h : Meets E I R P (f m) m) :
  Meets E I R P (get >>= f) m
  := ⟨h.kept, h.related, h.result, h.fault⟩

/-! ### Faults -/

theorem meets_fail (hR : Steady V R) (hI : I m) {cause : EvalCause} {pos : Option Pos}
    (hE : E (.error ⟨cause, pos⟩)) :
  Meets E I R P (fail cause pos) m
  := meets_throw hR hI hE

theorem meets_orFail (hR : Steady V R) (hI : I m) {r : Except EvalCause α} {pos : Option Pos}
    (h : ∀ a, r = .ok a → P m a) (hE : ∀ cause, r = .error cause → E (.error ⟨cause, pos⟩)) :
  Meets E I R P (orFail pos r) m
  := by
  cases r with
  | ok a => apply meets_pure hR hI (h a rfl)
  | error cause => apply meets_fail hR hI (hE cause rfl)

theorem meets_orRenderFault (hR : Steady V R) (hI : I m) {r : Except RenderFault α}
    (hE : ∀ e, r = .error e → E (.ofRender e)) :
  Meets E I R (fun _ _ => True) (orRenderFault r) m
  := by
  cases r with
  | ok a => apply meets_pure hR hI trivial
  | error e => apply meets_throw hR hI (hE e rfl)

/-! ### Values on their way -/

/-- The value, or what it holds if it is on its way out of a call, has a property; it is on its
way only inside a call. -/
structure Holds (V : Heap → Value → Prop) (m : Machine) (v : Value) : Prop where
  content : V m.heap v.content
  inside : v.isReturned = true → m.depth ≠ 0

/-- What the evaluation of several expressions comes to. -/
def Gathered.Holds (V : Heap → Value → Prop) (m : Machine) : Gathered → Prop
  | .values vs => ∀ v ∈ vs, V m.heap v
  | .returned v => Eval.Holds V m v

theorem Holds.value {v : Value} (h : Holds V m v) (hv : v.isReturned = false) :
  V m.heap v
  := by
  cases v with
  | returned => cases hv
  | _ => apply h.content

theorem holds_of_value {v : Value} (h : V m.heap v) (hv : v.isReturned = false) :
  Holds V m v
  := by
  constructor
  · cases v with
    | returned => cases hv
    | _ => apply h
  · intro hr
    rw [hv] at hr
    cases hr

/-- Going on with a value meets a specification if going on with any value that is not on its
way out does. -/
theorem Meets.proceed (hR : Steady V R) {x : Eval Value} {next : Value → Eval Value}
    (hx : Meets E I R (Holds V) x m)
    (hn : ∀ v m', x.run m = .ok v m' → I m' → R m m' → v.isReturned = false → V m'.heap v →
      Meets E I R (Holds V) (next v) m') :
  Meets E I R (Holds V) (x >>= fun v => Eval.proceed v next) m
  := by
  apply hx.witnessed.bind hR
  intro v m' hI hr hv
  unfold Eval.proceed
  cases hret : v.isReturned with
  | true => apply meets_pure hR hI hv.2
  | false => apply hn v m' hv.1 hI hr hret (hv.2.value hret)

variable {limit : Nat}

theorem meets_gather (hR : Steady V R) {es : List Expr} (hI : I m)
    (h : ∀ e m', Begins limit (es.map .expr) m (.expr e) m' → I m' → R m m' →
      Meets E I R (Holds V) (expression limit e) m') :
  Meets E I R (Gathered.Holds V) (gather (expression limit) es) m
  := by
  induction es generalizing m with
  | nil =>
      apply meets_pure hR hI
      intro v hv
      cases hv
  | cons e es ih =>
      apply (h e m .head hI (hR.refl m)).witnessed.bind hR
      rintro v m₁ hI₁ hr₁ ⟨hrun, hv⟩
      cases hret : v.isReturned with
      | true =>
          rw [if_pos rfl]
          apply meets_pure hR hI₁
          apply hv
      | false =>
          rw [if_neg Bool.false_ne_true]
          have hes : Meets E I R (Gathered.Holds V) (gather (expression limit) es) m₁ := by
            apply ih hI₁
            intro e m' hb hI' hr'
            apply h e m' (.tail ⟨hrun, hret⟩ hb) hI' (hR.trans hr₁ hr')
          apply hes.bind hR
          intro g m₂ hI₂ hr₂ hg
          cases g with
          | values vs =>
              apply meets_pure hR hI₂
              intro w hw
              rcases List.mem_cons.mp hw with rfl | hw
              · apply hR.stable hr₂ (hv.value hret)
              · apply hg w hw
          | returned w =>
              apply meets_pure hR hI₂
              apply hg

theorem meets_withAll (hR : Steady V R) {es : List Expr} {next : List Value → Eval Value}
    (hI : I m)
    (h : ∀ e m', Begins limit (es.map .expr) m (.expr e) m' → I m' → R m m' →
      Meets E I R (Holds V) (expression limit e) m')
    (hn : ∀ vs m', YieldsAll limit es m vs m' → I m' → R m m' → (∀ v ∈ vs, V m'.heap v) →
      Meets E I R (Holds V) (next vs) m') :
  Meets E I R (Holds V) (withAll (expression limit) es next) m
  := by
  apply (meets_gather hR hI h).witnessed.bind hR
  rintro g m' hI' hr ⟨hrun, hg⟩
  cases g with
  | values vs => apply hn vs m' hrun hI' hr hg
  | returned v =>
      apply meets_pure hR hI'
      apply hg

theorem meets_runAll (hR : Steady V R) {ss : List Stmt} {last : Value} (hI : I m)
    (hl : Holds V m last)
    (h : ∀ s m', Begins limit (ss.map .stmt) m (.stmt s) m' → I m' → R m m' →
      Meets E I R (Holds V) (statement limit s) m') :
  Meets E I R (Holds V) (runAll (statement limit) last ss) m
  := by
  induction ss generalizing m last with
  | nil => apply meets_pure hR hI hl
  | cons s ss ih =>
      apply (h s m .head hI (hR.refl m)).witnessed.bind hR
      rintro v m₁ hI₁ hr₁ ⟨hrun, hv⟩
      cases hret : v.isReturned with
      | true => apply meets_pure hR hI₁ hv
      | false =>
          apply ih hI₁ hv
          intro s m' hb hI' hr'
          apply h s m' (.tail ⟨hrun, hret⟩ hb) hI' (hR.trans hr₁ hr')

theorem meets_logical (hR : Steady V R) (hI : I m) {op : BinaryOp} {pos : Option Pos}
    (v : Value) (hE : ∀ kind, E (.error ⟨.logical op kind, pos⟩)) :
  Meets E I R (fun _ _ => True) (logical op pos v) m
  := by
  cases v with
  | bool b => apply meets_pure hR hI trivial
  | _ => apply meets_fail hR hI (hE _)

/-- The right operand is evaluated only if the left one is a boolean that does not decide. -/
theorem meets_shortCircuit (hR : Steady V R) {op : BinaryOp} {decisive : Bool}
    {pos : Option Pos} {left right : Expr}
    (hleft : Meets E I R (Holds V) (expression limit left) m)
    (hright : ∀ m', Yields limit (.expr left) m (.bool !decisive) m' → I m' → R m m' →
      Meets E I R (Holds V) (expression limit right) m')
    (hE : ∀ kind, E (.error ⟨.logical op kind, pos⟩)) :
  Meets E I R (Holds V) (shortCircuit (expression limit) op decisive pos left right) m
  := by
  apply hleft.proceed hR
  intro v m₁ hrun hI₁ hr₁ hret hv
  cases v with
  | bool b =>
      dsimp only [logical]
      rw [pure_bind]
      split
      · apply meets_pure hR hI₁
        apply holds_of_value hv hret
      · rename_i hne
        have hb : b = !decisive := Bool.eq_not.mpr hne
        subst hb
        apply (hright m₁ ⟨hrun, hret⟩ hI₁ hr₁).proceed hR
        intro w m₂ _ hI₂ _ hret hw
        apply (meets_logical hR hI₂ w hE).bind hR
        intro _ m₃ hI₃ hr₃ _
        apply meets_pure hR hI₃
        apply holds_of_value (hR.stable hr₃ hw) hret
  | _ => apply meets_fail hR hI₁ (hE _)

end ExprScript.Eval
