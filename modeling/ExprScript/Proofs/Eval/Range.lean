import ExprScript.Proofs.Eval.Along
import ExprScript.Proofs.Eval.Plain
import ExprScript.Proofs.Grammar.Branch

/-!
# Integers stay in range

Arithmetic keeps integers in the range of signed 32-bit integers, and so do the numbers of a
program if they lie in it.  The length that `len` measures is an integer as it is, so all integers
stay in range as long as the lengths that are measured lie in it.
-/

namespace ExprScript

/-- All numbers within the node lie in the range of integers. -/
def Node.InRange (n : Node) : Prop := ∀ x : Node, x.Within n → ∀ k ∈ x.number?, Arith.Fits k

/-- An integer lies in the range of integers, and so do the numbers in the body of a closure. -/
def Value.InRange : Value → Prop
  | .int n => Arith.Fits n
  | .fn c => (Node.stmt c.body).InRange
  | _ => True

namespace Node.InRange

variable {n : Node}

theorem within {x : Node} (h : n.InRange) (hx : x.Within n) :
  x.InRange
  := by
  intro y hy
  apply h y (hy.trans hx)

theorem of_parts (hn : ∀ k ∈ n.number?, Arith.Fits k) (h : ∀ c ∈ n.parts, c.InRange) :
  n.InRange
  := by
  intro x hx
  cases hx with
  | refl => apply hn
  | part hc hx => apply h _ hc x hx

theorem child {c : Node} (h : n.InRange) (hc : c ∈ n.children) :
  c.InRange
  := h.within (within_of_part (mem_parts_of_children hc))

end Node.InRange

/-- The numbers in a program that was read lie in the range of integers. -/
theorem Node.Parsed.inRange {n : Node} (h : n.Parsed) :
  n.InRange
  := fun x hx => (h.tame x hx).number

namespace Eval

/-- The evaluation of a node from `m`, within a limit, comes to measure a length. -/
inductive Measures (limit : Nat) (n : Node) (m : Machine) (k : Int) : Prop
  | intro {calls limit' n' m' args m''} : Reaches calls limit n m (limit' + 1) n' m' →
      Applies limit' n' m' (.builtin .len args) m'' → Builtin.length args = .ok (.int k) →
      Measures limit n m k

/-- What an evaluation that is entered measures is measured by the one that enters it. -/
theorem Measures.of_entered {limit calls : Nat} {n n' : Node} {m m' : Machine} {k : Int}
    (he : Enters limit calls n m n' m') (h : Measures limit n' m' k) :
  Measures (limit + 1) n m k
  := by
  obtain ⟨hreaches, happlies, hlength⟩ := h
  exact ⟨.step he hreaches, happlies, hlength⟩

/-- A length is measured by the evaluation of the node itself, or by one that it enters. -/
theorem Measures.cases {limit : Nat} {n : Node} {m : Machine} {k : Int}
    (h : Measures (limit + 1) n m k) :
  (∃ args m', Applies limit n m (.builtin .len args) m' ∧ Builtin.length args = .ok (.int k))
    ∨ ∃ calls n' m', Enters limit calls n m n' m' ∧ Measures limit n' m' k
  := by
  obtain ⟨hreaches, happlies, hlength⟩ := h
  cases hreaches with
  | refl => exact .inl ⟨_, _, happlies, hlength⟩
  | step he hreaches => exact .inr ⟨_, _, _, he, hreaches, happlies, hlength⟩

/-- The numbers within the node and the lengths that its evaluation measures lie in the range of
integers. -/
structure Ranged (limit : Nat) (n : Node) (m : Machine) : Prop where
  numbers : n.InRange
  lengths : ∀ k, Measures limit n m k → Arith.Fits k

theorem closed_inRange :
  Value.Closed Value.InRange
  where
  unit := trivial
  bool _ := trivial
  str _ := trivial
  builtin _ := trivial
  wrap n := Arith.fits_wrap n
  complement h := Arith.fits_complement h
  rem h _ _ := Arith.fits_tmod h _

/-- A length is an integer. -/
theorem length_eq_int {args : List Value} {v : Value} (h : Builtin.length args = .ok v) :
  ∃ k, v = .int k
  := by
  unfold Builtin.length at h
  split at h <;> cases h <;> exact ⟨_, rfl⟩

/-- The regime of integers in range. -/
theorem range_regime :
  Regime (fun _ => True) (fun _ => Value.InRange) (fun _ => True) Stays Stays Ranged
  where
  closed _ := closed_inRange
  inner := steady_stays _ fun _ _ _ hv => hv
  outer := steady_stays _ fun _ _ _ hv => hv
  widen h := h
  stays h := h
  entered h he _ := ⟨h.numbers.child he.mem_children, fun k hk => h.lengths k (hk.of_entered he)⟩
  body h hc happlies hb _ := by
    refine ⟨?_, fun k hk => h.lengths k (hk.of_entered (happlies.enters_body hb))⟩
    apply Node.InRange.within hc (Node.within_of_statements hb.mem_stmt)
  length h happlies hlength := by
    obtain ⟨k, rfl⟩ := length_eq_int hlength
    exact .int (h.lengths k ⟨.refl, happlies, hlength⟩)
  literal h := h.numbers _ .refl _ rfl
  close _ h := h.numbers.within (Node.within_of_part List.mem_cons_self)
  branch _ _ := .inr fun h => h
  quiet _ _ := ⟨trivial, rfl, rfl⟩
  define _ _ := ⟨trivial, rfl, rfl⟩
  enter _ _ := ⟨trivial, fun _ hv => hv⟩
  leave _ _ _ := ⟨trivial, rfl, rfl⟩
  error _ := trivial
  exhausted := trivial
  bareExpr _ := trivial
  bareStmt _ := trivial
  stray _ _ := trivial
  unknown _ _ := trivial
  rendered _ _ := trivial
  printed _ _ := trivial

end Eval

end ExprScript
