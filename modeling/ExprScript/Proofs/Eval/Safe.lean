import ExprScript.Proofs.Eval.Plain
import ExprScript.Proofs.Grammar.Branch
import ExprScript.Proofs.RoundTrip
import ExprScript.Proofs.Tree.Clean

/-!
# Faults that programs can come to

A program that was read holds no bare node, and every built-in function that it hands around as a
value is known by its name.  So its evaluation comes to errors of its own and to the limit, and to
no other fault.
-/

namespace ExprScript

/-- Whether a fault is an error of evaluation itself or says that the limit is used up. -/
def Fault.isOrdinary : Fault → Bool
  | .error e => !e.cause.isSource
  | .exhausted => true
  | _ => false

/-- The body of a closure lies within a program that was read, and a built-in function has the
name of one. -/
def Value.Sane : Value → Prop
  | .fn c => (Node.stmt c.body).Parsed
  | .builtin name => ∃ b, Builtin.ofName? name = some b
  | _ => True

/-- What was read can be rendered. -/
theorem Node.Parsed.clean {n : Node} (h : n.Parsed) :
  n.Clean
  := by
  obtain ⟨p, hp, s, hs, hn⟩ := h
  obtain ⟨w, hw⟩ := hp.derives
  cases hw with
  | @program w ss _ hss _ =>
      have hclean : Grammar.Sym.stmts.Clean (w.length + 2) ss := hss.clean (Nat.le_refl _)
      have hstmt : (Node.stmt s).Clean := ⟨w.length + 2, hclean s hs⟩
      apply hstmt.within hn

/-! ### Texts of values -/

namespace Value

theorem fault?_eq {v : Value} {limit : Nat} {e : RenderFault} (hv : v.Every Sane)
    (h : v.fault? limit = some e) :
  e = .exhausted
  := by
  induction limit generalizing v with
  | zero =>
      rw [fault?] at h
      cases h
      rfl
  | succ limit ih =>
      cases hv with
      | int | bool | str | builtin | unit => cases h
      | array hvs =>
          rw [fault?] at h
          obtain ⟨w, hw, he⟩ := List.exists_of_findSome?_eq_some h
          apply ih (hvs w hw) he
      | map hes =>
          rw [fault?] at h
          obtain ⟨p, hp, he⟩ := List.exists_of_findSome?_eq_some h
          apply ih (hes p hp) he
      | fn hc =>
          rw [fault?] at h
          obtain ⟨s, hs, he⟩ := List.exists_of_findSome?_eq_some h
          have hparsed : (Node.stmt s).Parsed :=
            Node.Parsed.within hc (Node.within_of_statements hs)
          exact hparsed.clean.fault?_eq (n := .stmt s) he

theorem printed_eq_error {v : Value} {limit : Nat} {e : RenderFault} (hv : v.Every Sane)
    (h : v.printed limit = .error e) :
  e = .exhausted
  := by
  have hfault : v.fault? limit = some e := by
    unfold printed render RenderFault.unless at h
    split at h
    · cases h
    · split at h
      · cases h
        assumption
      · cases h
  apply fault?_eq hv hfault

end Value

theorem Builtin.line_eq_error {args : List Value} {limit : Nat} {e : RenderFault}
    (hargs : ∀ v ∈ args, v.Every Value.Sane) (h : Builtin.line limit args = .error e) :
  e = .exhausted
  := by
  have htexts : args.mapM (Value.printed limit) = .error e := by
    unfold Builtin.line at h
    generalize args.mapM (Value.printed limit) = r at h ⊢
    cases r with
    | ok texts => cases h
    | error e' =>
        cases h
        rfl
  clear h
  induction args with
  | nil => cases htexts
  | cons v vs ih =>
      rw [List.mapM_cons] at htexts
      cases hv : v.printed limit with
      | error e' =>
          rw [hv] at htexts
          cases htexts
          apply Value.printed_eq_error (hargs v List.mem_cons_self) hv
      | ok text =>
          rw [hv] at htexts
          apply ih fun w hw => hargs w (List.mem_cons_of_mem _ hw)
          generalize vs.mapM (Value.printed limit) = r at htexts ⊢
          cases r with
          | ok texts => cases htexts
          | error e' =>
              cases htexts
              rfl

namespace Eval

theorem closed_sane :
  Value.Closed Value.Sane
  where
  unit := trivial
  bool _ := trivial
  str _ := trivial
  builtin h := ⟨_, h⟩
  wrap _ := trivial
  complement _ := trivial
  rem _ _ _ := trivial

/-- The law of ordinary faults, for programs that were read. -/
theorem safe_law :
  Law (fun e => e.isOrdinary = true) (fun _ => Value.Sane) (fun _ => True) Stays Stays
    (fun _ => Node.Parsed)
  where
  closed _ := closed_sane
  inner := steady_stays _ fun _ _ _ hv => hv
  outer := steady_stays _ fun _ _ _ hv => hv
  widen h := h
  stays h := h
  length _ := trivial
  child h hc := h.within (Node.within_of_part (Node.mem_parts_of_children hc))
  literal _ := trivial
  close _ h := h.within (Node.within_of_part List.mem_cons_self)
  body h hs := Node.Parsed.within h (Node.within_of_statements hs)
  branch _ _ := .inr fun h => h
  quiet _ _ := ⟨trivial, rfl, rfl⟩
  define _ _ := ⟨trivial, rfl, rfl⟩
  enter _ _ := ⟨trivial, fun _ hv => hv⟩
  leave _ _ _ := ⟨trivial, rfl, rfl⟩
  error h := by simp [Fault.isOrdinary, EvalCause.isSource_of_isOperation h]
  exhausted := rfl
  bareExpr h := by cases h.clean.not_bare
  bareStmt h := by cases h.clean.not_bare
  stray _ := rfl
  unknown h hnone := by
    obtain ⟨b, hb⟩ := h
    cases hnone.symm.trans hb
  rendered {_ _ callee _ limit e} h he := by
    have hcallee : (Node.expr callee).Clean := h.clean.part List.mem_cons_self
    have hfault : (Node.expr callee).fault? limit = some e := by
      unfold Expr.render RenderFault.unless at he
      split at he
      · cases he
        assumption
      · cases he
    rw [hcallee.fault?_eq hfault]
    rfl
  printed hargs he := by
    rw [Builtin.line_eq_error hargs he]
    rfl

end Eval

end ExprScript
