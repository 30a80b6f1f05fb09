import ExprScript.Proofs.Grammar.Program
import ExprScript.Proofs.Grammar.Text

/-!
# Reading a rendered program

A program that was read from a source text can be rendered, and if it is legible then reading
its canonical text gives the program back, grouping and positions aside.
-/

namespace ExprScript

namespace Grammar

/-! ### Rendering -/

attribute [local simp] Expr.fault? Stmt.fault?

/-- Nothing stands in the way of rendering the tree of a symbol within a limit. -/
@[simp]
def Sym.Clean (limit : Nat) : (S : Sym) → S.Tree → Prop
  | .program, _ | .parameter, _ => True
  | .stmts, ss => ∀ s ∈ ss, s.fault? limit = none
  | .stmt _, s => s.fault? limit = none
  | .block, s => s.fault? limit = none
  | .expr _, e => e.fault? limit = none
  | .cond, e => e.fault? limit = none
  | .entry, p => p.2.fault? limit = none
  | .list item, as => ∀ a ∈ as, item.Clean limit a

/-- How much limit a tree takes beyond one for each token: an expression may be a statement with
no token of its own. -/
@[simp]
def Sym.slack : Sym → Nat
  | .stmts | .stmt _ => 2
  | .list item => item.slack
  | _ => 1

theorem Sym.slack_pos (S : Sym) :
  0 < S.slack
  := by
  induction S with
  | list item ih => apply ih
  | stmts | stmt => apply Nat.two_pos
  | _ => apply Nat.one_pos

/-- A tree that was derived from tokens is rendered within a limit of one for each token, and a
little more. -/
theorem Derives.clean {S : Sym} {w : List Token} {a : S.Tree} (h : Derives S w a) {limit : Nat}
    (hl : w.length + S.slack ≤ limit) :
  S.Clean limit a
  := by
  have hpos := S.slack_pos
  obtain ⟨limit, rfl⟩ : ∃ n, limit = n + 1 := ⟨limit - 1, by omega⟩
  clear hpos
  induction h generalizing limit with
  | program | parameter => trivial
  | noStmts | noItems => simp
  | moreStmts _ _ _ ihs ihv =>
      simp only [List.length_append, Sym.slack] at hl ihs ihv
      intro s hs
      rcases List.mem_cons.mp hs with rfl | hs
      · apply ihs limit (by omega)
      · apply ihv limit (by omega) s hs
  | bind _ _ _ _ _ ih | ret _ _ _ ih | expr _ _ ih | exprEnded _ _ _ ih =>
      simp only [List.length_append, List.length_cons, Sym.slack] at hl ih
      obtain ⟨limit, rfl⟩ : ∃ n, limit = n + 1 := ⟨limit - 1, by omega⟩
      simp only [Sym.Clean, Stmt.fault?]
      apply ih limit (by omega)
  | block _ ih | blockEnded _ _ ih =>
      simp only [List.length_append, Sym.slack] at hl ih
      apply ih limit (by omega)
  | braces _ _ _ ih =>
      simp only [List.length_append, List.length_cons, Sym.slack] at hl ih
      obtain ⟨limit, rfl⟩ : ∃ n, limit = n + 1 := ⟨limit - 1, by omega⟩
      simp only [Sym.Clean, Stmt.fault?, List.findSome?_eq_none_iff]
      apply ih limit (by omega)
  | tighter _ ih | cond _ ih => apply ih limit hl
  | binary _ _ _ ihl ihr | index _ _ _ _ ihl ihr =>
      simp only [List.length_append, List.length_cons, Sym.slack] at hl ihl ihr
      obtain ⟨limit, rfl⟩ : ∃ n, limit = n + 1 := ⟨limit - 1, by omega⟩
      simp only [Sym.Clean, Expr.fault?, Option.or_eq_none_iff]
      exact ⟨ihl limit (by omega), ihr limit (by omega)⟩
  | call _ _ _ _ ihf iha =>
      simp only [List.length_append, List.length_cons, Sym.slack] at hl ihf iha
      obtain ⟨limit, rfl⟩ : ∃ n, limit = n + 1 := ⟨limit - 1, by omega⟩
      simp only [Sym.Clean, Expr.fault?, Option.or_eq_none_iff, List.findSome?_eq_none_iff]
      exact ⟨ihf limit (by omega), iha limit (by omega)⟩
  | unary _ _ ih | group _ _ _ ih =>
      simp only [List.length_append, List.length_cons, Sym.slack] at hl ih
      obtain ⟨limit, rfl⟩ : ∃ n, limit = n + 1 := ⟨limit - 1, by omega⟩
      simp only [Sym.Clean, Expr.fault?]
      apply ih limit (by omega)
  | int | str | trueWord | falseWord | ident => simp only [Sym.Clean, Expr.fault?]
  | fn _ _ _ _ _ _ ih =>
      simp only [List.length_append, List.length_cons, Sym.slack] at hl ih
      obtain ⟨limit, rfl⟩ : ∃ n, limit = n + 1 := ⟨limit - 1, by omega⟩
      simp only [Sym.Clean, Expr.fault?]
      apply ih limit (by omega)
  | array _ _ _ ih | map _ _ _ _ ih =>
      simp only [List.length_append, List.length_cons, Sym.slack] at hl ih
      obtain ⟨limit, rfl⟩ : ∃ n, limit = n + 1 := ⟨limit - 1, by omega⟩
      simp only [Sym.Clean, Expr.fault?, List.findSome?_eq_none_iff]
      apply ih limit (by omega)
  | ifThen _ _ _ ihc ihv =>
      simp only [List.length_append, List.length_cons, Sym.slack] at hl ihc ihv
      obtain ⟨limit, rfl⟩ : ∃ n, limit = n + 1 := ⟨limit - 1, by omega⟩
      simp only [Sym.Clean, Expr.fault?, Option.or_eq_none_iff]
      exact ⟨ihc limit (by omega), ihv limit (by omega), rfl⟩
  | ifElse _ _ _ _ _ ihc ihv ihn =>
      simp only [List.length_append, List.length_cons, Sym.slack] at hl ihc ihv ihn
      obtain ⟨limit, rfl⟩ : ∃ n, limit = n + 1 := ⟨limit - 1, by omega⟩
      simp only [Sym.Clean, Expr.fault?, Option.or_eq_none_iff]
      exact ⟨ihc limit (by omega), ihv limit (by omega), ihn limit (by omega)⟩
  | ifElseIf _ _ _ _ _ ihc ihv ihn =>
      simp only [List.length_append, List.length_cons, Sym.slack] at hl ihc ihv ihn
      obtain ⟨limit, rfl⟩ : ∃ n, limit = n + 2 := ⟨limit - 2, by omega⟩
      simp only [Sym.Clean, Expr.fault?, Option.or_eq_none_iff, Option.bind_some, Stmt.fault?]
      exact ⟨ihc (limit + 1) (by omega), ihv (limit + 1) (by omega), ihn limit (by omega)⟩
  | lastItem _ ih =>
      intro a ha
      obtain rfl := List.mem_singleton.mp ha
      apply ih limit hl
  | moreItems _ _ _ iha ihv =>
      simp only [List.length_append, List.length_cons, Sym.slack] at hl ihv
      intro a ha
      rcases List.mem_cons.mp ha with rfl | ha
      · apply iha limit (by omega)
      · apply ihv limit (by omega) a ha
  | entry _ _ _ ih =>
      simp only [List.length_cons, Sym.slack] at hl ih
      apply ih limit (by omega)

end Grammar

namespace Program

open Grammar

/-- A program that was read from a source text is rendered within a limit of one for each token,
and a little more. -/
theorem render_of_derives {w : List Token} {p : Program} (h : Derives .program w p)
    {limit : Nat} (hl : w.length + 1 ≤ limit) :
  p.render limit = .ok p.text
  := by
  cases h with
  | @program w ss z hw hz =>
      simp only [List.length_append, List.length_singleton] at hl
      have hclean : Sym.stmts.Clean limit ss := by
        apply hw.clean
        simp only [Sym.slack]
        omega
      have hfault : ss.findSome? (Stmt.fault? limit) = none := by
        rw [List.findSome?_eq_none_iff]
        apply hclean
      rw [render, hfault]
      rfl

/-- A legible program that is derived from tokens of a source text is derived again from the
tokens of its own text, grouping and positions aside. -/
theorem derives_text {source : String} {p : Program} (h : Derives .program (tokensOf source) p)
    (hp : p.legible = true) :
  ∃ q, Derives .program (tokensOf p.text) q
    ∧ q.recast (fun _ => none) false = p.recast (fun _ => none) false
  := by
  have hnamed : Named (tokensOf source) := by
    intro t ht hk
    apply Cursor.isIdent_of_mem_stream _ ht hk
  generalize tokensOf source = v at h hnamed
  cases h with
  | @program w ss z hw hz =>
      obtain ⟨u, ts, hs, hd, hb⟩ := rereads hw (named_append.mp hnamed).1 hp
      have hforms : (tokensOf (Program.text ⟨ss⟩)).map Token.form
          = (u ++ [tokenOf .eof ""]).map Token.form := by
        have hspells := hs [] fun _ => apart_nil
        rw [List.append_nil, forms_nil] at hspells
        rw [map_form_tokensOf, List.map_append]
        apply hspells
      have hprogram : Derives .program (u ++ [tokenOf .eof ""]) ⟨ts⟩ := .program hd rfl
      obtain ⟨q, hq, hu⟩ := hprogram.of_forms hforms
      refine ⟨q, hq, ?_⟩
      have hbones : Sym.program.bones q = Sym.program.bones ⟨ts⟩ := by
        have := congrArg (Program.recast (fun _ => none) false) hu
        simp only [Sym.recast, Program.recast_recast] at this
        apply this
      rw [show q.recast _ _ = _ from hbones]
      apply congrArg Program.mk hb

/-- Reading the canonical text of a legible program gives the program back, grouping and
positions aside. -/
theorem read_render {source : String} {limit : Nat} {p : Program}
    (h : read limit source = .ok p) (hp : p.legible = true) :
  ∃ n q, ∀ limit, n ≤ limit →
    p.render limit = .ok p.text ∧ read limit p.text = .ok q
      ∧ q.ungrouped.unplaced = p.ungrouped.unplaced ∧ q.ungrouped.same p.ungrouped = true
  := by
  have hd := derives_of_read h
  obtain ⟨q, hq, hbones⟩ := derives_text hd hp
  have hunplaced : q.ungrouped.unplaced = p.ungrouped.unplaced := by
    simp only [ungrouped, unplaced, recast_recast]
    apply hbones
  have hsame : q.ungrouped.same p.ungrouped = true := hd.same false hunplaced
  refine ⟨3 * (tokensOf p.text).length + (tokensOf source).length + 1, q, ?_⟩
  intro limit hl
  exact ⟨render_of_derives hd (by omega), read_of_derives hq (by omega), hunplaced, hsame⟩

/-- A program with groups and dropped semicolons is read back. -/
theorem read_render_function :
  ∃ p, read 60 "let f = fn(x) { if x < 1 { return (x); } else if !x { } -(x) + 2 }; f((3) * 4);"
      = .ok p
    ∧ ∃ n q, ∀ limit, n ≤ limit →
        p.render limit = .ok p.text ∧ read limit p.text = .ok q
          ∧ q.ungrouped.unplaced = p.ungrouped.unplaced ∧ q.ungrouped.same p.ungrouped = true
  := by
  have h : ∃ p, read 60
      "let f = fn(x) { if x < 1 { return (x); } else if !x { } -(x) + 2 }; f((3) * 4);" = .ok p
      ∧ p.legible = true := ⟨_, by with_unfolding_all rfl, by with_unfolding_all rfl⟩
  obtain ⟨p, hr, hp⟩ := h
  exact ⟨p, hr, read_render hr hp⟩

end Program

end ExprScript
