import ExprScript.Proofs.Eval.Law

/-!
# Plain values

A value is plain if no part of it is on its way out of a call, and a state is plain if all its
bindings are.  Every evaluation keeps states plain, puts back the current scope and the depth,
and has a plain result or, inside a call only, a plain value on its way out.
-/

namespace ExprScript

/-- No part of the value is on its way out of a call. -/
def Value.Plain (v : Value) : Prop := v.Every fun _ => True

/-- All bound values are plain. -/
def Machine.Plain (m : Machine) : Prop := m.heap.Every Value.Plain

theorem Machine.plain_start :
  Machine.start.Plain
  := by
  intro i p hp
  rw [start, Heap.bindings_create] at hp
  cases hp

namespace Eval

theorem closed_true :
  Value.Closed fun _ => True
  where
  unit := trivial
  bool _ := trivial
  str _ := trivial
  builtin _ := trivial
  wrap _ := trivial
  complement _ := trivial
  rem _ _ _ := trivial

theorem steady_stays (V : Heap → Value → Prop) (hV : ∀ h h' v, V h v → V h' v) :
  Steady V Stays
  where
  refl _ := ⟨rfl, rfl⟩
  trans h h' := ⟨h'.1.trans h.1, h'.2.trans h.2⟩
  stable _ hv := hV _ _ _ hv

/-- The law of plain values, which asks nothing of nodes. -/
theorem plain_law :
  Law (fun _ => True) (fun _ _ => True) (fun _ => True) Stays Stays (fun _ _ => True)
  where
  closed _ := closed_true
  inner := steady_stays _ fun _ _ _ hv => hv
  outer := steady_stays _ fun _ _ _ hv => hv
  widen h := h
  stays h := h
  length _ := trivial
  child _ _ := trivial
  literal _ := trivial
  close _ _ := trivial
  body _ _ := trivial
  branch _ _ := .inr fun h => h
  quiet _ _ := ⟨trivial, rfl, rfl⟩
  define _ _ := ⟨trivial, rfl, rfl⟩
  enter _ _ := ⟨trivial, fun _ _ => trivial⟩
  leave _ _ _ := ⟨trivial, rfl, rfl⟩
  error _ := trivial
  exhausted := trivial
  bareExpr _ := trivial
  bareStmt _ := trivial
  stray _ := trivial
  unknown _ _ := trivial
  rendered _ _ := trivial
  printed _ _ := trivial

theorem sound_of_plain {m : Machine} (h : m.Plain) :
  Sound (fun _ _ => True) (fun _ => True) m
  := ⟨trivial, h⟩

end Eval

end ExprScript
