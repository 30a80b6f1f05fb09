import ExprScript.Proofs.Arith
import ExprScript.Proofs.Grammar.Program
import ExprScript.Proofs.Tree.Node

/-!
# Branches and numbers

The branches of a conditional that the grammar derives are blocks, or the conditional after an
`else`.  So in a program that was read no branch binds a name in the scope around it.  All numbers
in it lie in the range of integers.
-/

namespace ExprScript

/-- No branch of the node binds a name, and the number that it is, if it is one, lies in the
range of integers. -/
structure Node.Tidy (n : Node) : Prop where
  branches : ∀ s ∈ n.branches, s.isBind = false
  number : ∀ k ∈ n.number?, Arith.Fits k

/-- All nodes within the node are tidy. -/
def Tame (n : Node) : Prop := ∀ x : Node, x.Within n → x.Tidy

namespace Tame

variable {n : Node}

theorem intro (hparts : ∀ c ∈ n.parts, Tame c) (h : n.Tidy) :
  Tame n
  := by
  intro x hx
  cases hx with
  | refl => apply h
  | part hc hx => apply hparts _ hc x hx

theorem branch {s : Stmt} (h : Tame n) (hs : s ∈ n.branches) :
  s.isBind = false
  := (h n .refl).branches s hs

theorem within {x : Node} (h : Tame n) (hx : x.Within n) :
  Tame x
  := by
  intro y hy
  apply h y (hy.trans hx)

/-- A node that is no conditional and no number is tame if its parts are. -/
theorem of_parts (hn : n.branches = []) (hk : n.number? = none) (h : ∀ c ∈ n.parts, Tame c) :
  Tame n
  := by
  refine .intro h ⟨?_, ?_⟩
  · intro s hs
    rw [hn] at hs
    cases hs
  · intro k hk'
    rw [hk] at hk'
    cases hk'

theorem of_part {c : Node} (hn : n.branches = []) (hk : n.number? = none) (hp : n.parts = [c])
    (h : Tame c) :
  Tame n
  := by
  apply of_parts hn hk
  intro c' hc'
  rw [hp] at hc'
  rw [List.mem_singleton.mp hc']
  apply h

end Tame

namespace Grammar

/-- The tree of a symbol is tame. -/
def Sym.Tame : (S : Sym) → S.Tree → Prop
  | .program, p => ∀ s ∈ p.statements, ExprScript.Tame (.stmt s)
  | .stmts, ss => ∀ s ∈ ss, ExprScript.Tame (.stmt s)
  | .stmt _, s => ExprScript.Tame (.stmt s)
  | .block, s => ExprScript.Tame (.stmt s) ∧ s.isBind = false
  | .expr _, e => ExprScript.Tame (.expr e)
  | .cond, e => ExprScript.Tame (.expr e)
  | .entry, p => ExprScript.Tame (.expr p.2)
  | .parameter, _ => True
  | .list item, as => ∀ a ∈ as, item.Tame a

/-- What the grammar derives is tame. -/
theorem Derives.tame {S : Sym} {w : List Token} {a : S.Tree} (h : Derives S w a) :
  S.Tame a
  := by
  induction h with
  | program _ _ ih => apply ih
  | noStmts | noItems =>
      intro a ha
      cases ha
  | moreStmts _ _ _ ihs ihv =>
      intro s hs
      rcases List.mem_cons.mp hs with rfl | hs
      · apply ihs
      · apply ihv s hs
  | bind _ _ _ _ _ ih | ret _ _ _ ih | expr _ _ ih | exprEnded _ _ _ ih =>
      apply Tame.of_part rfl rfl rfl ih
  | block _ ih | blockEnded _ _ ih => apply ih.1
  | braces _ _ _ ih =>
      refine ⟨Tame.of_parts rfl rfl ?_, rfl⟩
      intro c hc
      obtain ⟨s, hs, rfl⟩ := List.mem_map.mp hc
      apply ih s hs
  | tighter _ ih | cond _ ih => apply ih
  | binary _ _ _ ihl ihr | index _ _ _ _ ihl ihr =>
      apply Tame.of_parts rfl rfl
      intro c hc
      rcases List.mem_cons.mp hc with rfl | hc
      · apply ihl
      · rw [List.mem_singleton.mp hc]
        apply ihr
  | call _ _ _ _ ihf ihargs =>
      apply Tame.of_parts rfl rfl
      intro c hc
      rcases List.mem_cons.mp hc with rfl | hc
      · apply ihf
      · obtain ⟨e, he, rfl⟩ := List.mem_map.mp hc
        apply ihargs e he
  | unary _ _ ih | group _ _ _ ih => apply Tame.of_part rfl rfl rfl ih
  | @int t _ _ hrange =>
      refine .intro ?_ ⟨?_, ?_⟩
      · intro c hc
        cases hc
      · intro s hs
        cases hs
      · intro k hk
        cases hk
        unfold Arith.Fits
        omega
  | str | trueWord | falseWord | ident =>
      apply Tame.of_parts rfl rfl
      intro c hc
      cases hc
  | fn _ _ _ _ _ _ ih => apply Tame.of_part rfl rfl rfl ih.1
  | array _ _ _ ih =>
      apply Tame.of_parts rfl rfl
      intro c hc
      obtain ⟨e, he, rfl⟩ := List.mem_map.mp hc
      apply ih e he
  | map _ _ _ _ ih =>
      apply Tame.of_parts rfl rfl
      intro c hc
      obtain ⟨e, he, rfl⟩ := List.mem_map.mp hc
      obtain ⟨p, hp, rfl⟩ := List.mem_map.mp he
      apply ih p hp
  | ifThen _ _ _ ihc ihyes =>
      refine .intro ?_ ?_
      · intro c hc
        rcases List.mem_cons.mp hc with rfl | hc
        · apply ihc
        · rw [List.mem_singleton.mp hc]
          apply ihyes.1
      · refine ⟨?_, nofun⟩
        intro s hs
        rw [List.mem_singleton.mp hs]
        apply ihyes.2
  | ifElse _ _ _ _ _ ihc ihyes ihno =>
      refine .intro ?_ ?_
      · intro c hc
        rcases List.mem_cons.mp hc with rfl | hc
        · apply ihc
        · rcases List.mem_cons.mp hc with rfl | hc
          · apply ihyes.1
          · rw [List.mem_singleton.mp hc]
            apply ihno.1
      · refine ⟨?_, nofun⟩
        intro s hs
        rcases List.mem_cons.mp hs with rfl | hs
        · apply ihyes.2
        · rw [List.mem_singleton.mp hs]
          apply ihno.2
  | ifElseIf _ _ _ _ _ ihc ihyes ihno =>
      refine .intro ?_ ?_
      · intro c hc
        rcases List.mem_cons.mp hc with rfl | hc
        · apply ihc
        · rcases List.mem_cons.mp hc with rfl | hc
          · apply ihyes.1
          · rw [List.mem_singleton.mp hc]
            apply Tame.of_part rfl rfl rfl ihno
      · refine ⟨?_, nofun⟩
        intro s hs
        rcases List.mem_cons.mp hs with rfl | hs
        · apply ihyes.2
        · rw [List.mem_singleton.mp hs]
          rfl
  | lastItem _ ih =>
      intro a ha
      rw [List.mem_singleton.mp ha]
      apply ih
  | moreItems _ _ _ iha ihas =>
      intro a ha
      rcases List.mem_cons.mp ha with rfl | ha
      · apply iha
      · apply ihas a ha
  | parameter => trivial
  | entry _ _ _ ih => apply ih

end Grammar

/-- The node lies within a program that was read. -/
def Node.Parsed (n : Node) : Prop := ∃ p : Program, p.Parsed ∧ p.Has n

theorem Program.Parsed.statements {p : Program} (hp : p.Parsed) :
  ∀ s ∈ p.statements, (Node.stmt s).Parsed
  := fun s hs => ⟨p, hp, s, hs, .refl⟩

namespace Node.Parsed

variable {n : Node}

theorem within {x : Node} (h : n.Parsed) (hx : x.Within n) :
  x.Parsed
  := by
  obtain ⟨p, hp, s, hs, hn⟩ := h
  exact ⟨p, hp, s, hs, hx.trans hn⟩

theorem tame (h : n.Parsed) :
  Tame n
  := by
  obtain ⟨p, hp, s, hs, hn⟩ := h
  obtain ⟨w, hw⟩ := hp.derives
  have hall : ∀ s ∈ p.statements, Tame (.stmt s) := hw.tame
  apply (hall s hs).within hn

end Node.Parsed

end ExprScript
