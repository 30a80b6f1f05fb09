import ExprScript.Proofs.Grammar.Form
import ExprScript.Proofs.Session.Joined

/-!
# Layout does not matter

Two source texts whose tokens have the same forms, one by one, differ in their layout only: in the
blanks and comments between tokens, and so in the positions.  They are read alike and come to the
same in every session, up to positions.
-/

namespace ExprScript

open Stateful

/-! ### Reading -/

namespace Program

open Reader Grammar

/-- The statements of a program up to positions. -/
def views (p : Program) : List Stmt := p.statements.map (stmtView Pos.anywhere)

theorem matches_program (further : TokenStream) (limit : Nat) :
  Matches Pos.anywhere further views (program limit) (program limit)
  := by
  apply (matches_upTo (matchesAt (Nat.le_refl limit)).statement).bind
  intro ss ss' hss
  have hviews : views ⟨ss⟩ = views ⟨ss'⟩ := hss
  apply matches_pure hviews

/-- A reading that stays within the limit ends like that of any tokens of the same forms. -/
theorem corresponds_of_forms {limit : Nat} {s t : TokenStream} (hs : s.Ended)
    (hforms : t.forms = s.forms) (hcopes : ∀ s₁, (program limit).run s ≠ .error .exhausted s₁) :
  ∃ further, Corresponds Pos.anywhere further views ((program limit).run s) ((program limit).run t)
  := by
  rw [s.forms_eq_concat] at hforms
  obtain ⟨further, hfurther, hleads⟩ :=
    TokenStream.exists_further hs (List.cons_ne_nil _ _) hforms
  have hmatches := matches_program further limit
  refine ⟨further, hmatches.run s t hleads ⟨hcopes, ?_⟩⟩
  intro _
  apply (TokenStream.tied_of_forms hfurther).later (hmatches.later s hs)

theorem unplaced_eq_map_views (p : Program) :
  p.unplaced = ⟨p.views.map (Stmt.recast (fun _ => none) true)⟩
  := by
  simp only [unplaced, recast, views, Stmt.recastAll_eq_map, List.map_map, Function.comp_def,
    stmtView, Stmt.recast_recast, Bool.and_self]

/-- A program with the tree of one that was read, up to positions, is equal to it. -/
theorem same_of_views {limit : Nat} {source : String} {p q : Program}
    (hq : read limit source = .ok q) (h : p.views = q.views) :
  p.same q = true
  := by
  have hunplaced : p.unplaced = q.unplaced := by
    rw [unplaced_eq_map_views, unplaced_eq_map_views, h]
  rw [← q.recast_id] at hunplaced ⊢
  apply (derives_of_read hq).same true hunplaced

/-- Two readings end alike: in equal programs, the same up to positions, or in the same failure up
to positions. -/
inductive ReadAlike : Except ReadFailure Program → Except ReadFailure Program → Prop
  | ok {p q} : p.same q = true → p.views = q.views → ReadAlike (.ok p) (.ok q)
  | error {e e'} : e.recast Pos.anywhere = e'.recast Pos.anywhere →
      ReadAlike (.error e) (.error e')

theorem ReadAlike.symm {limit : Nat} {a b : String} (h : ReadAlike (read limit a) (read limit b)) :
  ReadAlike (read limit b) (read limit a)
  := by
  generalize hp : read limit a = r at h
  generalize read limit b = r' at h
  cases h with
  | ok _ hviews => exact .ok (same_of_views hp hviews.symm) hviews.symm
  | error he => exact .error he.symm

/-- A text that is read within the limit, or refused, leads the way for any other with tokens of
the same forms. -/
theorem readAlike_of_copes {limit : Nat} {a b : String}
    (hforms : (tokensOf a).map Token.form = (tokensOf b).map Token.form)
    (hcopes : read limit a ≠ .error .exhausted) :
  ReadAlike (read limit a) (read limit b)
  := by
  have hrun : ∀ s, (program limit).run (.ofSource a) ≠ .error .exhausted s := by
    intro s hs
    apply hcopes (read_eq_error.mpr ⟨s, hs⟩)
  obtain ⟨further, hends⟩ :=
    corresponds_of_forms (TokenStream.ofSource_ended a) hforms.symm hrun
  cases hp : (program limit).run (.ofSource a) with
  | ok p s =>
      rw [hp] at hends
      obtain ⟨q, s', hq, hviews, -⟩ := hends.of_ok
      have hread := read_eq_ok.mpr ⟨s', hq⟩
      rw [read_eq_ok.mpr ⟨s, hp⟩, hread]
      exact .ok (same_of_views hread hviews) hviews
  | error e s =>
      rw [hp] at hends
      obtain ⟨e', s', he', hrecast, -⟩ := hends.of_error
      rw [read_eq_error.mpr ⟨s, hp⟩, read_eq_error.mpr ⟨s', he'⟩]
      exact .error hrecast

/-- Texts whose tokens have the same forms are read alike. -/
theorem readAlike_of_forms {a b : String}
    (h : (tokensOf a).map Token.form = (tokensOf b).map Token.form) (limit : Nat) :
  ReadAlike (read limit a) (read limit b)
  := by
  by_cases ha : read limit a = .error .exhausted
  · by_cases hb : read limit b = .error .exhausted
    · rw [ha, hb]
      exact .error rfl
    · apply (readAlike_of_copes h.symm hb).symm
  · apply readAlike_of_copes h ha

end Program

/-! ### Evaluating -/

namespace Session

open Program

theorem recast_ofRead (place : Pos → Pos) (e : ReadFailure) :
  (Fault.ofRead e).recast place = .ofRead (e.recast place)
  := by
  cases e with
  | refused e => cases e <;> rfl
  | oversized | exhausted => rfl

/-- Texts that are read alike are evaluated alike. -/
theorem agrees_of_readAlike {limit : Nat} {a b : String}
    (h : ReadAlike (read limit a) (read limit b)) (s : Session) :
  Agrees ((s.supply a).evaluate limit) ((s.supply b).evaluate limit)
  := by
  apply agrees_of_recast
  generalize hp : read limit a = r at h
  generalize hq : read limit b = r' at h
  cases h with
  | @ok p q _ hviews =>
      have ha : ending ((s.supply a).evaluate limit) = (programs limit [p]).run s.machine :=
        ending_evaluateAll hp .nil rfl
      have hb : ending ((s.supply b).evaluate limit) = (programs limit [q]).run s.machine :=
        ending_evaluateAll hq .nil rfl
      rw [ha, hb]
      have hmirrors := mirrors_programs Pos.anywhere limit [p]
      have hstatements : p.statements.map (Stmt.recast (Option.map Pos.anywhere) true)
          = q.statements.map (Stmt.recast (Option.map Pos.anywhere) true) := hviews
      rw [List.flatMap_singleton, hstatements] at hmirrors
      have hmirrors' := mirrors_programs Pos.anywhere limit [q]
      rw [List.flatMap_singleton] at hmirrors'
      apply Eval.recastRun_eq hmirrors hmirrors' rfl
  | @error e e' he =>
      obtain ⟨rest, ha⟩ := evaluate_of_unread (s := s.supply a) rfl hp
      obtain ⟨rest', hb⟩ := evaluate_of_unread (s := s.supply b) rfl hq
      rw [ha, hb]
      simp only [ending, recastRun, recast_ofRead, he]
      rfl

/-- Layout does not matter.  Texts whose tokens have the same forms are read as equal programs or
are refused alike, and come to the same in every session, up to positions. -/
theorem layout_irrelevant {a b : String}
    (h : (tokensOf a).map Token.form = (tokensOf b).map Token.form) (limit : Nat) :
  ReadAlike (read limit a) (read limit b)
    ∧ ∀ s : Session, Agrees ((s.supply a).evaluate limit) ((s.supply b).evaluate limit)
  := by
  have hread := readAlike_of_forms h limit
  exact ⟨hread, agrees_of_readAlike hread⟩

/-- A function that fails when it is called, on one line and with a comment on four. -/
theorem layout_irrelevant_comment :
  (tokensOf "let f = fn(x) \x7b 10 / x \x7d; f(0)").map Token.form
      = (tokensOf "let f=fn(x)\x7b // a share\n  10/x\n\x7d;\nf( 0 )").map Token.form
    ∧ ReadAlike (read 20 "let f = fn(x) \x7b 10 / x \x7d; f(0)")
      (read 20 "let f=fn(x)\x7b // a share\n  10/x\n\x7d;\nf( 0 )")
    ∧ ∀ s : Session, Agrees
      ((s.supply "let f = fn(x) \x7b 10 / x \x7d; f(0)").evaluate 20)
      ((s.supply "let f=fn(x)\x7b // a share\n  10/x\n\x7d;\nf( 0 )").evaluate 20)
  := by
  have hforms : (tokensOf "let f = fn(x) \x7b 10 / x \x7d; f(0)").map Token.form
      = (tokensOf "let f=fn(x)\x7b // a share\n  10/x\n\x7d;\nf( 0 )").map Token.form := by
    decide +kernel
  exact ⟨hforms, layout_irrelevant hforms 20⟩

end Session

end ExprScript
