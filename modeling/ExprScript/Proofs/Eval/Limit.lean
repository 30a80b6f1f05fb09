import ExprScript.Proofs.Eval.Congruence

/-!
# Evaluation within larger limits

Whatever is evaluated, text is printed only behind the text there is.  Within a larger limit an
evaluation comes to the same, unless its own limit is used up.  Then all that it had printed by that
time is printed within the larger limit as well, before anything else.
-/

namespace ExprScript

/-- The text that is printed in the second state begins with the one that is in the first. -/
def Machine.Prints (m m' : Machine) : Prop := ∃ text, m'.out = m.out ++ text

namespace Machine.Prints

variable {m m₁ m₂ : Machine}

theorem of_eq (h : m₁.out = m.out) :
  m.Prints m₁
  := ⟨"", by rw [h, String.append_empty]⟩

theorem trans (h : m.Prints m₁) (h' : m₁.Prints m₂) :
  m.Prints m₂
  := by
  obtain ⟨text, htext⟩ := h
  obtain ⟨more, hmore⟩ := h'
  refine ⟨text ++ more, ?_⟩
  rw [hmore, htext, String.append_assoc]

end Machine.Prints

namespace Eval

open Stateful

section

variable {α : Type}

/-- The second run is the first one, or the first one has used up its limit and has not printed
anything but the beginning of what the second one prints. -/
inductive Surpasses :
    EStateM.Result Fault Machine α → EStateM.Result Fault Machine α → Prop
  | same (r) : Surpasses r r
  | exhausted {m : Machine} {r} : m.Prints (final r) → Surpasses (.error .exhausted m) r

/-- From every state, the second evaluation surpasses the first one. -/
structure Widens (x y : Eval α) : Prop where
  prints : ∀ m : Machine, m.Prints (final (y.run m))
  run : ∀ m, Surpasses (x.run m) (y.run m)

end

variable {α β : Type}

theorem Surpasses.withFinal {r r' : EStateM.Result Fault Machine α} (h : Surpasses r r')
    {f : Machine → Machine} (hf : ∀ m, (f m).out = m.out) :
  Surpasses (withFinal f r) (withFinal f r')
  := by
  cases h with
  | same => exact .same _
  | @exhausted m _ h =>
      refine .exhausted ?_
      rw [final_withFinal]
      have hleft : (f m).Prints m := .of_eq (hf m).symm
      apply hleft.trans (h.trans (.of_eq (hf _)))

theorem widens_self {x : Eval α} (h : ∀ m : Machine, m.Prints (final (x.run m))) :
  Widens x x
  := ⟨h, fun _ => .same _⟩

theorem Widens.bind {x y : Eval α} {f g : α → Eval β} (hx : Widens x y)
    (hf : ∀ a, Widens (f a) (g a)) :
  Widens (x >>= f) (y >>= g)
  := by
  have hlater : ∀ m, (final (y.run m)).Prints (final ((y >>= g).run m)) := by
    intro m
    rw [EStateM.run_bind]
    cases y.run m with
    | ok a m₁ => apply (hf a).prints
    | error e m₁ => exact .of_eq rfl
  constructor
  · intro m
    apply (hx.prints m).trans (hlater m)
  · intro m
    have hrun := hx.run m
    have hprints := hlater m
    rw [EStateM.run_bind] at hprints ⊢
    rw [EStateM.run_bind]
    generalize x.run m = r, y.run m = r' at hrun hprints ⊢
    cases hrun with
    | exhausted h => exact .exhausted (h.trans hprints)
    | same =>
        cases r with
        | ok a m₁ => apply (hf a).run
        | error e m₁ => exact .same _

/-- Work that starts further in and comes back out prints what it prints there. -/
theorem Widens.inner {x y x' y' : Eval α} (h : Widens x y) {into : Machine → Machine}
    {back : Machine → Machine → Machine}
    (hx : ∀ m, x'.run m = Stateful.withFinal (back m) (x.run (into m)))
    (hy : ∀ m, y'.run m = Stateful.withFinal (back m) (y.run (into m)))
    (hinto : ∀ m, (into m).out = m.out) (hback : ∀ m m', (back m m').out = m'.out) :
  Widens x' y'
  := by
  constructor
  · intro m
    have hstart : m.Prints (into m) := .of_eq (hinto m)
    rw [hy, final_withFinal]
    apply hstart.trans ((h.prints (into m)).trans (.of_eq (hback m _)))
  · intro m
    rw [hx, hy]
    apply (h.run (into m)).withFinal (hback m)

theorem widens_congruence :
  Congruence Widens
  where
  bind := Widens.bind
  inside {x y} pos hx := by
    have hcase : ∀ m : Machine,
        Widens (if m.depth = 0 then fail .strayReturn pos else x)
          (if m.depth = 0 then fail .strayReturn pos else y) := by
      intro m
      split
      · exact widens_self fun _ => .of_eq rfl
      · exact hx
    exact ⟨fun m => (hcase m).prints m, fun m => (hcase m).run m⟩
  inBlock hx := hx.inner (run_inBlock _) (run_inBlock _) (fun _ => rfl) fun _ _ => rfl
  inCall c args hx :=
    hx.inner (run_inCall c args _) (run_inCall c args _) (fun _ => rfl) fun _ _ => rfl
  pure _ := widens_self fun _ => .of_eq rfl
  throw _ := widens_self fun _ => .of_eq rfl
  lookup? _ := widens_self fun _ => .of_eq rfl
  define _ _ := widens_self fun _ => .of_eq rfl
  serial := widens_self fun _ => .of_eq rfl
  close _ _ := widens_self fun _ => .of_eq rfl
  print text := widens_self fun _ => ⟨text, rfl⟩

/-- All nodes go the same way within a larger limit, as far as their own limit lasts. -/
theorem widens_of_le {limit limit' : Nat} (h : limit ≤ limit') :
  RelatedAt Widens limit limit'
  := by
  apply widens_congruence.related_of_le _ h
  exact fun hy => ⟨hy.prints, fun m => .exhausted (hy.prints m)⟩

theorem widens_statements {limit limit' : Nat} (h : limit ≤ limit') (ss : List Stmt) :
  Widens (statements limit ss) (statements limit' ss)
  := by
  induction ss with
  | nil => apply widens_congruence.pure
  | cons s ss ih =>
      apply Widens.bind ((widens_of_le h).statement s)
      intro v
      apply ih.bind
      intro vs
      apply widens_congruence.pure

end Eval

end ExprScript
