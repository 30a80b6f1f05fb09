import ExprScript.Proofs.Eval.Law

/-!
# Laws along the way

A regime holds in every state in which an evaluation that is reached begins, and it is about that
evaluation.  A law holds there too, and of all values that something is applied to.
-/

namespace ExprScript

namespace Eval

variable {E : Fault → Prop} {A : Heap → Value → Prop} {J : Machine → Prop}
  {R S : Machine → Machine → Prop}

namespace Regime

variable {Fit : Nat → Node → Machine → Prop} (law : Regime E A J R S Fit) {limit : Nat}
  {m m' : Machine}

include law

theorem yields {n : Node} {v : Value} (hm : Sound A J m) (hg : Fit limit n m)
    (h : Yields limit n m v m') :
  Sound A J m' ∧ S m m' ∧ Fine A m'.heap v
  := by
  have hmeets : Meets E (Sound A J) S (Holds (Fine A)) (node limit n) m := by
    cases n with
    | expr e => apply ((law.obeys limit).expression hm hg).mono law.widen
    | stmt s => apply (law.obeys limit).statement hm hg
  obtain ⟨hkept, hrelated, hv⟩ := hmeets.of_ok h.run
  exact ⟨hkept, hrelated, hv.value h.goes⟩

theorem yieldsAll {es : List Expr} {vs : List Value} (hm : Sound A J m)
    (hg : ∀ e m₁, Begins limit (es.map .expr) m (.expr e) m₁ → m₁.depth = m.depth →
      Fit limit (.expr e) m₁)
    (h : YieldsAll limit es m vs m') :
  Sound A J m' ∧ R m m' ∧ ∀ v ∈ vs, Fine A m'.heap v
  := by
  have hmeets : Meets E (Sound A J) R (Gathered.Holds (Fine A))
      (gather (Eval.expression limit) es) m := by
    apply meets_gather law.inner.every hm
    intro e m₁ hb hm₁ hr
    apply (law.obeys limit).expression hm₁ (hg e m₁ hb (law.stays (law.widen hr)).2)
  apply hmeets.of_ok h

/-- Of nodes that are evaluated one after the other, each begins in a state that the regime is
about, in the scope and at the depth in which the first one began. -/
theorem begins {ns : List Node} {n' : Node} (hm : Sound A J m)
    (hg : ∀ n m₁, Begins limit ns m n m₁ → m₁.depth = m.depth → Fit limit n m₁)
    (h : Begins limit ns m n' m') :
  Sound A J m' ∧ Fit limit n' m'
  := by
  induction h with
  | head => exact ⟨hm, hg _ _ .head rfl⟩
  | tail hy _ ih =>
      obtain ⟨hm₁, hS, _⟩ := law.yields hm (hg _ _ .head rfl) hy
      apply ih hm₁
      intro n m₂ hb hdepth
      apply hg n m₂ (.tail hy hb) (hdepth.trans (law.stays hS).2)

/-- What is entered without evaluating more than one part before it. -/
theorem entered_of_yields {n n' : Node} {e : Expr} {v : Value} (hm : Sound A J m)
    (hg : Fit (limit + 1) n m) (he : Enters limit 0 n m (.expr e) m)
    (hy : Yields limit (.expr e) m v m') (h : Enters limit 0 n m n' m') :
  Sound A J m' ∧ Fit limit n' m'
  := by
  obtain ⟨hm', hS, _⟩ := law.yields hm (law.entered hg he rfl) hy
  exact ⟨hm', law.entered hg h (law.stays hS).2⟩

theorem enters {calls : Nat} {n n' : Node} (hm : Sound A J m) (hg : Fit (limit + 1) n m)
    (h : Enters limit calls n m n' m') :
  Sound A J m' ∧ Fit limit n' m'
  := by
  cases h with
  | opening hb =>
      apply law.begins hm _ hb
      intro c m₁ hb hdepth
      apply law.entered hg (.opening hb) hdepth
  | ret hdepth => exact ⟨hm, law.entered hg (.ret hdepth) rfl⟩
  | block hb =>
      apply law.begins _ _ hb
      · apply law.sound_enter hm (.inl rfl)
        intro p hp
        cases hp
      · intro c m₁ hb hdepth
        apply law.entered hg (.block hb) hdepth
  | and hy => apply law.entered_of_yields hm hg (.opening .head) hy (.and hy)
  | or hy => apply law.entered_of_yields hm hg (.opening .head) hy (.or hy)
  | consequence hy => apply law.entered_of_yields hm hg (.opening .head) hy (.consequence hy)
  | alternative hy => apply law.entered_of_yields hm hg (.opening .head) hy (.alternative hy)
  | argument hd hy htakes hb =>
      obtain ⟨hm₁, hS, _⟩ := law.yields hm (law.entered hg (enters_callee hd) rfl) hy
      apply law.begins hm₁ _ hb
      intro c m₂ hb hdepth
      apply law.entered hg (.argument hd hy htakes hb) (hdepth.trans (law.stays hS).2)
  | @body _ _ args _ c m₁ _ _ _ _ hd hy harity hvs hb =>
      obtain ⟨hm₁, hS, hf⟩ := law.yields hm (law.entered hg (enters_callee hd) rfl) hy
      have hargs : ∀ e m₂, Begins limit (args.map .expr) m₁ (.expr e) m₂ → m₂.depth = m₁.depth →
          Fit limit (.expr e) m₂ := by
        intro e m₂ hb hdepth
        apply law.entered hg (.argument hd hy harity hb) (hdepth.trans (law.stays hS).2)
      obtain ⟨hm₂, hr, hall⟩ := law.yieldsAll hm₁ hargs hvs
      have hdepth := (law.stays (law.outer.trans hS (law.widen hr))).2
      cases hf with
      | fn hc =>
          apply law.begins (law.sound_call hm₂ (law.inner.stable hr hc) hall) _ hb
          intro n m₃ hb hdepth'
          obtain ⟨s, -, rfl⟩ := List.mem_map.mp hb.mem
          apply law.body hg hc (.closure hd hy harity hvs) hb
          rw [hdepth', ← hdepth]
          rfl

/-- Whatever an evaluation reaches begins in a state that the regime is about, and is itself such
an evaluation. -/
theorem reaches {calls limit limit' : Nat} {n n' : Node}
    (h : Reaches calls limit n m limit' n' m') (hm : Sound A J m) (hg : Fit limit n m) :
  Sound A J m' ∧ Fit limit' n' m'
  := by
  induction h with
  | refl => exact ⟨hm, hg⟩
  | step he _ ih =>
      obtain ⟨hm₁, hg₁⟩ := law.enters hm hg he
      apply ih hm₁ hg₁

theorem visits {ss : List Stmt} {calls limit limit' : Nat} {n : Node} (hm : Sound A J m)
    (hg : ∀ s m₁, Starts limit ss m s m₁ → m₁.depth = m.depth → Fit limit (.stmt s) m₁)
    (h : Visits limit ss m calls limit' n m') :
  Sound A J m' ∧ Fit limit' n m'
  := by
  obtain ⟨rfl, hbefore, hreach⟩ := h
  rename_i before s after vs m₁
  have hmeets : Meets E (Sound A J) S (fun m' vs => ∀ v ∈ vs, Holds (Fine A) m' v)
      (statements limit before) m := by
    apply law.meets_statements hm
    rintro t m₂ ⟨rfl, hrun⟩ hdepth
    apply hg t m₂ ⟨List.append_assoc _ _ _, hrun⟩ hdepth
  obtain ⟨hkept, hrelated, _⟩ := hmeets.of_ok hbefore
  apply law.reaches hreach hkept
  apply hg s m₁ ⟨rfl, hbefore⟩ (law.stays hrelated).2

end Regime

namespace Law

variable {Good : Nat → Node → Prop} (law : Law E A J R S Good) {limit : Nat} {m m' : Machine}

include law

theorem yields {n : Node} {v : Value} (hm : Sound A J m) (hg : Good m.depth n)
    (h : Yields limit n m v m') :
  Sound A J m' ∧ S m m' ∧ Fine A m'.heap v
  := law.regime.yields hm hg h

theorem yieldsAll {es : List Expr} {vs : List Value} (hm : Sound A J m)
    (hg : ∀ e ∈ es, Good m.depth (.expr e)) (h : YieldsAll limit es m vs m') :
  Sound A J m' ∧ R m m' ∧ ∀ v ∈ vs, Fine A m'.heap v
  := by
  apply law.regime.yieldsAll hm _ h
  intro e m₁ hb hdepth
  obtain ⟨_, he, hee⟩ := List.mem_map.mp hb.mem
  cases hee
  rw [hdepth]
  apply hg e he

theorem enters {calls : Nat} {n n' : Node} (hm : Sound A J m) (hg : Good m.depth n)
    (h : Enters limit calls n m n' m') :
  Sound A J m' ∧ Good m'.depth n'
  := law.regime.enters hm hg h

theorem visits {ss : List Stmt} {calls limit limit' : Nat} {n : Node} (hm : Sound A J m)
    (hg : ∀ s ∈ ss, Good m.depth (.stmt s)) (h : Visits limit ss m calls limit' n m') :
  Sound A J m' ∧ Good m'.depth n
  := by
  apply law.regime.visits hm _ h
  rintro s m₁ ⟨rfl, -⟩ hdepth
  rw [hdepth]
  apply hg s (List.mem_append_right _ List.mem_cons_self)

/-- Operators, built-in functions and closures are applied only to values that the law is
about. -/
theorem applies {n : Node} {a : Application} (hm : Sound A J m) (hg : Good m.depth n)
    (h : Applies limit n m a m') :
  ∀ v ∈ a.arguments, Fine A m'.heap v
  := by
  have hpair : ∀ {e₁ e₂ m₁ v w}, Node.expr e₁ ∈ n.children → .expr e₂ ∈ n.children →
      Yields limit (.expr e₁) m v m₁ → Yields limit (.expr e₂) m₁ w m' →
      ∀ x ∈ [v, w], Fine A m'.heap x := by
    intro e₁ e₂ m₁ v w he₁ he₂ hv hw x hx
    obtain ⟨hm₁, hS₁, hv⟩ := law.yields hm (law.child hg he₁) hv
    have hg₂ : Good m₁.depth (.expr e₂) := by
      rw [(law.stays hS₁).2]
      apply law.child hg he₂
    obtain ⟨_, hS₂, hw⟩ := law.yields hm₁ hg₂ hw
    rcases List.mem_cons.mp hx with rfl | hx
    · apply law.outer.every.stable hS₂ hv
    · rw [List.mem_singleton.mp hx]
      apply hw
  have hlater : ∀ {e : Expr} {es : List Expr} {m₁ f vs}, Node.expr e ∈ n.children →
      (∀ e ∈ es, .expr e ∈ n.children) → Yields limit (.expr e) m f m₁ →
      YieldsAll limit es m₁ vs m' → ∀ v ∈ vs, Fine A m'.heap v := by
    intro e es m₁ f vs he hes hf hvs
    obtain ⟨hm₁, hS₁, _⟩ := law.yields hm (law.child hg he) hf
    apply (law.yieldsAll hm₁ _ hvs).2.2
    intro e he
    rw [(law.stays hS₁).2]
    apply law.child hg (hes e he)
  cases h with
  | unary hv =>
      intro x hx
      rw [List.mem_singleton.mp hx]
      apply (law.yields hm (law.child hg List.mem_cons_self) hv).2.2
  | binary _ _ hv hw =>
      apply hpair List.mem_cons_self _ hv hw
      apply List.mem_cons_of_mem _ List.mem_cons_self
  | logical _ he hv =>
      intro x hx
      rw [List.mem_singleton.mp hx]
      obtain ⟨hm₁, hg₁⟩ := law.enters hm hg he
      apply (law.yields hm₁ hg₁ hv).2.2
  | index hv hw =>
      apply hpair List.mem_cons_self _ hv hw
      apply List.mem_cons_of_mem _ List.mem_cons_self
  | direct _ hvs =>
      apply (law.yieldsAll hm _ hvs).2.2
      intro e he
      apply law.child hg (List.mem_cons_of_mem _ (List.mem_map_of_mem he))
  | builtin _ hf hvs _ =>
      apply hlater List.mem_cons_self _ hf hvs
      intro e he
      apply List.mem_cons_of_mem _ (List.mem_map_of_mem he)
  | closure _ hf _ hvs =>
      apply hlater List.mem_cons_self _ hf hvs
      intro e he
      apply List.mem_cons_of_mem _ (List.mem_map_of_mem he)

end Law

end Eval

end ExprScript
