import ExprScript.Proofs.Eval.Grouping
import ExprScript.Session

/-!
# Grouping has no meaning of its own

In every session a program and the same program without its grouping come to the same: to results of
the same kinds and texts or to the same fault, with the same output and with bindings of the same
names, kinds and texts.  Two things make a difference.  Parentheses count against the limit.  And
where a built-in function is called by a name in parentheses, the name is looked up, so that it must
not be bound to anything else.
-/

namespace ExprScript

open Stateful

/-- The kind and the text of a value. -/
def Value.shown (v : Value) : ValueKind × String := (v.kind, v.text)

namespace Session

open Eval

/-- Two runs come to results of the same kinds and texts or to the same fault, with the same output
and with bindings of the same names, kinds and texts. -/
structure Coincides (r r' : Except Fault (List Value) × Session) : Prop where
  outcome : r.1.map (List.map Value.shown) = r'.1.map (List.map Value.shown)
  out : r.2.machine.out = r'.2.machine.out
  bindings : r.2.bindings.map (Prod.map id Value.shown)
    = r'.2.bindings.map (Prod.map id Value.shown)

/-- The run of a program in a session, within some limit, comes to a call in the program of a
built-in function whose name stands in parentheses and is shadowed. -/
inductive Shadowed (s : Session) (p : Program) : Prop
  | intro {limit calls limit' n m name} :
      Visits limit p.statements s.machine calls limit' n m → p.Has n →
      n.groupedBuiltin? = some name → m.Shadows name → Shadowed s p

/-! ### What is shown -/

variable {V : Node → Prop}

theorem shown_eq {v w : Value} (h : v.Alike (Sheds V) w) :
  v.shown = w.shown
  := by
  rw [Value.shown, Value.shown, h.kind_eq, h.text_eq Sheds.texts_eq]

theorem map_shown_eq {vs ws : List Value} (h : List.Forall₂ (Value.Alike (Sheds V)) vs ws) :
  vs.map Value.shown = ws.map Value.shown
  := by
  rw [← List.forall₂_eq_eq_eq, List.forall₂_map_left_iff, List.forall₂_map_right_iff]
  exact h.imp fun v w hvw => shown_eq hvw

theorem bindings_shown_eq {m m' : Machine} (h : m.Alike (Sheds V) m') (pending : TokenStream) :
  (bindings ⟨pending, m⟩).map (Prod.map id Value.shown)
    = (bindings ⟨pending, m'⟩).map (Prod.map id Value.shown)
  := by
  have hsorted : ∀ d : Dict Value,
      (Dict.sorted d).map (Prod.map id Value.shown)
        = Dict.sorted (d.map (Prod.map id Value.shown)) := by
    intro d
    apply List.map_mergeSort
    intro p _ q _
    rfl
  have hroot : (m.heap.bindings Machine.root).map (Prod.map id Value.shown)
      = (m'.heap.bindings Machine.root).map (Prod.map id Value.shown) := by
    rw [← List.forall₂_eq_eq_eq, List.forall₂_map_left_iff, List.forall₂_map_right_iff]
    apply (h.heap.bindings Machine.root).imp
    rintro p q ⟨hname, hvalue⟩
    exact Prod.ext hname (shown_eq hvalue)
  rw [bindings, bindings, hsorted, hsorted, hroot]

/-- Runs that end alike coincide, if the limit of the one that leads is not used up. -/
theorem coincides_of_ends {s : Session} {p q : Program} {lead : Leader} {limit limit' : Nat}
    (h : Ends (Sheds V) (List.Forall₂ (Value.Alike (Sheds V))) lead
      ((statements limit p.statements).run s.machine)
      ((statements limit' q.statements).run s.machine))
    (hgrouped : lead = .grouped → (s.run limit p).1 ≠ .error .exhausted)
    (hungrouped : lead = .ungrouped → (s.run limit' q).1 ≠ .error .exhausted) :
  Coincides (s.run limit p) (s.run limit' q)
  := by
  unfold run at hgrouped hungrouped ⊢
  generalize (statements limit p.statements).run s.machine = r at h hgrouped ⊢
  generalize (statements limit' q.statements).run s.machine = r' at h hungrouped ⊢
  cases h with
  | ok hvs hm =>
      exact ⟨congrArg Except.ok (map_shown_eq hvs), hm.out, bindings_shown_eq hm s.pending⟩
  | fault hm => exact ⟨rfl, hm.out, bindings_shown_eq hm s.pending⟩
  | grouped => exact absurd rfl (hgrouped rfl)
  | ungrouped => exact absurd rfl (hungrouped rfl)

/-- Grouping has no meaning of its own.  A program that comes to an end within a limit coincides
with the program without its grouping, and the program without its grouping that comes to an end
within a limit coincides with the program within any limit that is high enough, provided that the
run comes to no call of a built-in function whose name stands in parentheses and is shadowed. -/
theorem grouping_has_no_meaning {s : Session} {p : Program} (h : ¬ s.Shadowed p) :
  (∀ limit, (s.run limit p).1 ≠ .error .exhausted →
      Coincides (s.run limit p) (s.run limit p.ungrouped))
    ∧ ∀ limit, (s.run limit p.ungrouped).1 ≠ .error .exhausted →
      ∃ bound, ∀ limit', bound ≤ limit' →
        Coincides (s.run limit' p) (s.run limit p.ungrouped)
  := by
  obtain ⟨slack, hregion⟩ := p.exists_region
  have hends : ∀ {lead limit limit'}, Leader.Covers slack 0 limit limit' lead →
      Ends (Sheds p.Has) (List.Forall₂ (Value.Alike (Sheds p.Has))) lead
        ((statements limit p.statements).run s.machine)
        ((statements limit' p.ungrouped.statements).run s.machine) := by
    intro lead limit limit' hc
    rw [Program.ungrouped, Program.recast, Stmt.recastAll_eq_map]
    apply ends_statements hregion hc (fun st hst => ⟨st, hst, .refl⟩) (.refl sheds_refl _)
    rintro st m ⟨hss, hbefore⟩ calls limit'' n m' name hreaches hhas hname hshadows
    exact h ⟨⟨hss, hbefore, hreaches⟩, hhas, hname, hshadows⟩
  constructor
  · intro limit hlimit
    have hcovers : Leader.Covers slack 0 limit limit .grouped := Nat.le_refl limit
    exact coincides_of_ends (hends hcovers) (fun _ => hlimit) nofun
  · intro limit hlimit
    refine ⟨limit * (slack + 1), ?_⟩
    intro limit' hle
    have hcovers : Leader.Covers slack 0 limit' limit .ungrouped := hle
    exact coincides_of_ends (hends hcovers) nofun (fun _ => hlimit)

/-! ### Names in parentheses -/

/-- Measures a string by the name of the built-in function in parentheses. -/
def measureGrouped (text : String) : Program :=
  let callee := Expr.group (some ⟨1, 1⟩) (.ident (some ⟨1, 2⟩) "len")
  ⟨[.expr (some ⟨1, 1⟩) (.call (some ⟨1, 1⟩) callee [.str (some ⟨1, 7⟩) text])]⟩

/-- What is reached from a string, or from a name in or without parentheses, calls nothing. -/
theorem groupedBuiltin?_of_reaches {limit calls limit' : Nat} {n n' : Node} {m m' : Machine}
    (h : Reaches calls limit n m limit' n' m')
    (hn : (∃ p t, n = .expr (.str p t)) ∨ (∃ p x, n = .expr (.ident p x))
      ∨ ∃ p q x, n = .expr (.group p (.ident q x))) :
  n'.groupedBuiltin? = none
  := by
  induction h with
  | refl => rcases hn with ⟨p, t, rfl⟩ | ⟨p, x, rfl⟩ | ⟨p, q, x, rfl⟩ <;> rfl
  | step he _ ih =>
      rcases hn with ⟨p, t, rfl⟩ | ⟨p, x, rfl⟩ | ⟨p, q, x, rfl⟩
      · obtain ⟨⟨⟩⟩ := he
      · obtain ⟨⟨⟩⟩ := he
      · cases he with
        | opening hb =>
            cases hb with
            | head => exact ih (.inr (.inl ⟨q, x, rfl⟩))
            | tail _ hb => cases hb

theorem not_shadowed_measureGrouped (text : String) :
  ¬ (start "").Shadowed (measureGrouped text)
  := by
  have hfree : ¬ Machine.start.Shadows "len" := by
    rintro ⟨v, hv, -⟩
    have hnone : Machine.start.heap.get? Machine.start.cursor "len" = none := by
      with_unfolding_all rfl
    rw [hnone] at hv
    cases hv
  have hlen : Builtin.ofName? "len" = some .len := rfl
  have hcalls : (Expr.group (some ⟨1, 1⟩) (.ident (some ⟨1, 2⟩) "len")).groupedName?
      = some "len" := rfl
  rintro @⟨limit, calls, limit', n, m, name, hvisits, -, hname, hshadows⟩
  -- The call is the only node that calls a name in parentheses, and it is evaluated at once.
  cases hvisits.reaches with
  | refl => cases hname
  | step he hreaches =>
      obtain ⟨hb⟩ := he
      cases hb with
      | tail _ hb => cases hb
      | head =>
          cases hreaches with
          | refl =>
              cases hname
              exact hfree hshadows
          | step he hreaches =>
              have hnone : n.groupedBuiltin? = none := by
                apply groupedBuiltin?_of_reaches hreaches
                cases he with
                | opening hb =>
                    cases hb with
                    | head => exact .inr (.inr ⟨_, _, _, rfl⟩)
                    | tail _ hb => cases hb
                | argument _ _ _ hb =>
                    cases hb with
                    | head => exact .inl ⟨_, _, rfl⟩
                    | tail _ hb => cases hb
                | body _ hcallee =>
                    rcases run_groupedName hcalls hlen hfree _ with hrun | ⟨-, hrun⟩
                    · cases hrun.symm.trans hcallee.run
                    · cases hrun.symm.trans hcallee.run
              cases hnone.symm.trans hname

/-- The length of a string that is asked for by a name in parentheses. -/
theorem grouping_has_no_meaning_len :
  Program.read 20 "(len)(\"ab\")" = .ok (measureGrouped "ab")
    ∧ ¬ (start "").Shadowed (measureGrouped "ab")
    ∧ Coincides ((start "").run 20 (measureGrouped "ab"))
      ((start "").run 20 (measureGrouped "ab").ungrouped)
  := by
  have hread : Program.read 20 "(len)(\"ab\")" = .ok (measureGrouped "ab") := by
    with_unfolding_all rfl
  have hfree := not_shadowed_measureGrouped "ab"
  refine ⟨hread, hfree, (grouping_has_no_meaning hfree).1 20 ?_⟩
  have hrun : ((start "").run 20 (measureGrouped "ab")).1 = .ok [.int 2] := by
    with_unfolding_all rfl
  rw [hrun]
  exact nofun

/-- Where a name in parentheses is shadowed it does not stand for the built-in function, and with a
limit that only just suffices for a number it does not suffice for the number in parentheses. -/
theorem grouping_has_no_meaning_shadowed :
  (∃ p, Program.read 20 "let len = fn(x) \x7b 7 \x7d; (len)([1])" = .ok p
      ∧ ¬ Coincides ((start "").run 20 p) ((start "").run 20 p.ungrouped))
    ∧ ∃ p, Program.read 20 "(1)" = .ok p
      ∧ ¬ Coincides ((start "").run 2 p) ((start "").run 2 p.ungrouped)
  := by
  constructor
  · have hread : ∃ p, Program.read 20 "let len = fn(x) \x7b 7 \x7d; (len)([1])" = .ok p
        ∧ ((start "").run 20 p).1.map (List.map Value.shown)
          = .ok [(.unit, "()"), (.integer, "7")]
        ∧ ((start "").run 20 p.ungrouped).1.map (List.map Value.shown)
          = .ok [(.unit, "()"), (.integer, "1")] :=
      ⟨_, by with_unfolding_all rfl, by decide +kernel, by decide +kernel⟩
    obtain ⟨p, hp, hseven, hone⟩ := hread
    refine ⟨p, hp, ?_⟩
    intro h
    have houtcome := hseven.symm.trans (h.outcome.trans hone)
    revert houtcome
    decide
  · refine ⟨_, by with_unfolding_all rfl, ?_⟩
    intro h
    cases h.outcome

end Session

end ExprScript
