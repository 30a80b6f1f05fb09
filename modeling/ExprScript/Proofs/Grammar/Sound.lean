import ExprScript.Proofs.Grammar.Power
import ExprScript.Proofs.Reader.Run

/-!
# What is read is derived

Whatever a reader takes off an ended stream is derived by the grammar, with the tree that the
reader yields.  For an expression the token after it matters too: no link there is as tight as
the reader was asked for.  This is what makes the loop over the links build the tree of the
layered grammar.
-/

namespace ExprScript.Reader

open Stateful Grammar

/-- The reader takes off an ended stream only what the symbol derives. -/
def Sound (S : Sym) (r : Reader S.Tree) : Prop :=
  ∀ ⦃s a s'⦄, s.Ended → r.run s = .ok a s' → ∃ w, s = s'.prepend w ∧ Derives S w a

/-- A family of readers by binding power reads expressions of the layer of the power, and the
links after them are looser. -/
def SoundExpr (expr : Nat → Reader Expr) : Prop :=
  ∀ ⦃power s e s'⦄, s.Ended → (expr power).run s = .ok e s' →
    ∃ w, s = s'.prepend w ∧ Derives (.expr (layerAt power)) w e
      ∧ s'.head.kind.Below (layerAt power)

/-- The reader reads statements, and nothing goes on with one that is an expression without a
semicolon. -/
def SoundStmt (r : Reader Stmt) : Prop :=
  ∀ ⦃s a s'⦄, s.Ended → r.run s = .ok a s' →
    ∃ unended w, s = s'.prepend w ∧ Derives (.stmt unended) w a
      ∧ (unended = true → s'.head.kind.Below 0)

theorem SoundExpr.loosest {expr : Nat → Reader Expr} (h : SoundExpr expr) :
  Sound (.expr 0) (expr 0)
  := by
  intro s e s' hs hr
  obtain ⟨w, hw, he, -⟩ := h hs hr
  exact ⟨w, hw, he⟩

/-! ### Lists -/

section Lists

variable {S : Sym} {item : List S.Tree → Reader S.Tree} {P : List S.Tree → Prop}
  (hinv : ∀ ⦃done s a s'⦄, P done → (item done).run s = .ok a s' → P (a :: done))
  (hitem : ∀ done, Sound S (item done))

include hinv hitem

/-- The items of a list, up to the closing token, are derived as a list; what every item keeps
true of the items so far, the last one first, is true of them all. -/
theorem listIn_sound {close : Kind} (bound : List Token) {done items : List S.Tree}
    {s s' : TokenStream} (hs : s.Ended) (hd : P done)
    (h : (listIn close item bound done).run s = .ok items s') :
  P items.reverse ∧ s'.head.kind = close
    ∧ ∃ w rest, s = s'.prepend w ∧ items = done.reverse ++ rest ∧ Derives (.list S) w rest
  := by
  induction bound generalizing done s with
  | nil => cases h
  | cons _ bound ih =>
      rw [listIn] at h
      by_cases hc : s.head.kind = close
      · rw [run_if_nextIs_of_eq hc] at h
        cases h
        rw [List.reverse_reverse]
        exact ⟨hd, hc, [], [], rfl, (List.append_nil _).symm, .noItems⟩
      · rw [run_if_nextIs_of_ne hc, run_bind_eq_ok] at h
        obtain ⟨a, s₁, ha, h⟩ := h
        obtain ⟨v, rfl, hv⟩ := hitem done hs ha
        have hs₁ := hs.of_prepend
        have hd₁ := hinv hd ha
        by_cases hk : s₁.head.kind = .comma
        · obtain ⟨hp, ht⟩ := hs₁.eq_push_of_kind hk (by decide)
          rw [run_if_nextIs_of_eq hk, run_bind_of_ok (run_take s₁)] at h
          obtain ⟨hi, hk', w, rest, hw, rfl, hr⟩ := ih ht hd₁ h
          refine ⟨hi, hk', v ++ s₁.head :: w, a :: rest, ?_, by simp, .moreItems hv hk hr⟩
          rw [TokenStream.prepend_append, TokenStream.prepend_cons, ← hw, ← hp]
        · rw [run_if_nextIs_of_ne hk] at h
          by_cases hc' : s₁.head.kind = close
          · rw [run_if_nextIs_of_eq hc'] at h
            cases h
            rw [List.reverse_reverse]
            exact ⟨hd₁, hc', v, [a], rfl, List.reverse_cons, .lastItem hv⟩
          · rw [run_if_nextIs_of_ne hc'] at h
            cases h

/-- A list with its closing token. -/
theorem list_sound {close : Kind} (hclose : close ≠ .eof) {items : List S.Tree}
    {s s' : TokenStream} (hs : s.Ended) (hd : P [])
    (h : (list close item).run s = .ok items s') :
  P items.reverse
    ∧ ∃ w z, s = s'.prepend (w ++ [z]) ∧ z.kind = close ∧ Derives (.list S) w items
  := by
  unfold list at h
  rw [run_bind_eq_ok] at h
  obtain ⟨_, _, hg, h⟩ := h
  cases hg
  rw [run_bind_eq_ok] at h
  obtain ⟨as, s₁, hl, h⟩ := h
  obtain ⟨hi, hk, w, rest, rfl, rfl, hr⟩ := listIn_sound hinv hitem _ hs hd hl
  rw [run_require_bind_eq_ok] at h
  obtain ⟨-, h⟩ := h
  cases h
  obtain ⟨hp, -⟩ := hs.of_prepend.eq_push_of_kind hk hclose
  refine ⟨hi, w, s₁.head, ?_, hk, hr⟩
  rw [TokenStream.prepend_concat, ← hp]

end Lists

/-- A list of items that do not depend on each other. -/
theorem plainList_sound {S : Sym} {item : Reader S.Tree} {close : Kind} (hclose : close ≠ .eof)
    (hitem : Sound S item) {items : List S.Tree} {s s' : TokenStream} (hs : s.Ended)
    (h : (list close fun _ => item).run s = .ok items s') :
  ∃ w z, s = s'.prepend (w ++ [z]) ∧ z.kind = close ∧ Derives (.list S) w items
  := by
  obtain ⟨-, hl⟩ := list_sound (P := fun _ => True) (fun _ _ _ _ _ _ => trivial)
    (fun _ => hitem) hclose hs trivial h
  apply hl

/-- A parameter is a name. -/
theorem parameter_sound :
  Sound .parameter parameter
  := by
  intro s a s' hs h
  unfold parameter at h
  rw [run_require_bind_eq_ok] at h
  obtain ⟨hk, h⟩ := h
  cases h
  obtain ⟨hp, -⟩ := hs.eq_push_of_kind hk (by decide)
  exact ⟨[s.head], hp, .parameter hk⟩

/-- What a result of reading an entry says: a new key, a colon and an expression. -/
theorem run_entry_eq_ok {expr : Nat → Reader Expr} {seen : List (String × Expr)}
    {s s' : TokenStream} {p : String × Expr} (h : (entry expr seen).run s = .ok p s') :
  s.head.kind = .string ∧ s.tail.head.kind = .colon ∧ p.1 = s.head.literal
    ∧ p.1 ∉ seen.map Prod.fst ∧ (expr 0).run s.tail.tail = .ok p.2 s'
  := by
  unfold entry at h
  rw [run_bind_of_ok (run_next s)] at h
  by_cases hk : s.head.kind = .string
  · rw [if_pos hk, run_bind_of_ok (run_take s)] at h
    split at h
    · cases h
    · rename_i hn
      rw [run_require_bind_eq_ok] at h
      obtain ⟨hc, h⟩ := h
      rw [run_bind_eq_ok] at h
      obtain ⟨e, s₂, he, h⟩ := h
      cases h
      exact ⟨hk, hc, rfl, by simpa using hn, he⟩
  · rw [if_neg hk] at h
    cases h

/-- An entry is a key, a colon and an expression. -/
theorem entry_sound {expr : Nat → Reader Expr} (hexpr : SoundExpr expr)
    (seen : List (String × Expr)) :
  Sound .entry (entry expr seen)
  := by
  intro s p s' hs h
  obtain ⟨hk, hc, hp, -, he⟩ := run_entry_eq_ok h
  obtain ⟨hs₁, ht⟩ := hs.eq_push_of_kind hk (by decide)
  obtain ⟨hs₂, ht⟩ := ht.eq_push_of_kind hc (by decide)
  obtain ⟨w, hw, hd⟩ := hexpr.loosest ht he
  refine ⟨s.head :: s.tail.head :: w, ?_, ?_⟩
  · rw [TokenStream.prepend_cons, TokenStream.prepend_cons, ← hw, ← hs₂, ← hs₁]
  · obtain ⟨key, value⟩ := p
    cases hp
    apply Derives.entry hk hc hd

/-- The entries of a map have different keys. -/
theorem entries_sound {expr : Nat → Reader Expr} (hexpr : SoundExpr expr)
    {es : List (String × Expr)} {s s' : TokenStream} (hs : s.Ended)
    (h : (list .rbrace (entry expr)).run s = .ok es s') :
  (es.map Prod.fst).Nodup
    ∧ ∃ w z, s = s'.prepend (w ++ [z]) ∧ z.kind = .rbrace ∧ Derives (.list .entry) w es
  := by
  have hinv : ∀ ⦃done : List (String × Expr)⦄ ⦃s a s'⦄, (done.map Prod.fst).Nodup →
      (entry expr done).run s = .ok a s' → ((a :: done).map Prod.fst).Nodup := by
    intro done s a s' hd ha
    obtain ⟨-, -, -, hn, -⟩ := run_entry_eq_ok ha
    rw [List.map_cons]
    apply List.nodup_cons.mpr ⟨hn, hd⟩
  obtain ⟨hn, hl⟩ := list_sound (S := .entry) hinv (entry_sound hexpr) (by decide) hs
    List.nodup_nil h
  rw [List.map_reverse] at hn
  exact ⟨(List.reverse_perm _).nodup_iff.mp hn, hl⟩

/-! ### Links -/

/-- The token of a link lies ahead. -/
theorem eq_push_of_link {s : TokenStream} {link : Link} (hs : s.Ended)
    (hl : s.head.kind.link? = some link) :
  s = s.tail.push s.head ∧ s.tail.Ended
  := by
  have hne : s.head.kind ≠ .eof := by
    intro hk
    rw [hk] at hl
    cases hl
  apply hs.eq_push_of_kind rfl hne

/-- A step along a link takes at least one token.  It makes an expression of the layer of the
link out of one of that layer, and the links after it are not tighter. -/
theorem extend_sound {expr : Nat → Reader Expr} (hexpr : SoundExpr expr) {link : Link}
    {left wider : Expr} {s s' : TokenStream} (hs : s.Ended)
    (hl : s.head.kind.link? = some link) (h : (extend expr left link).run s = .ok wider s') :
  ∃ v, v ≠ [] ∧ s = s'.prepend v
    ∧ (∀ w, Derives (.expr link.layer) w left → Derives (.expr link.layer) (w ++ v) wider)
    ∧ s'.head.kind.Below (link.layer + 1)
  := by
  obtain ⟨hp, ht⟩ := eq_push_of_link hs hl
  cases link with
  | index =>
      have hk := Kind.link?_eq_index.mp hl
      rw [extend, run_bind_of_ok (run_take s), run_bind_eq_ok] at h
      obtain ⟨i, s₁, hi, h⟩ := h
      rw [run_require_bind_eq_ok] at h
      obtain ⟨hz, h⟩ := h
      cases h
      obtain ⟨v, hv, hd⟩ := hexpr.loosest ht hi
      rw [hv] at ht
      obtain ⟨hq, -⟩ := ht.of_prepend.eq_push_of_kind hz (by decide)
      refine ⟨s.head :: (v ++ [s₁.head]), List.cons_ne_nil _ _, ?_,
        fun w hw => .index hw hk hd hz, Kind.below_operand _⟩
      rw [TokenStream.prepend_cons, TokenStream.prepend_concat, ← hq, ← hv, ← hp]
  | call =>
      have hk := Kind.link?_eq_call.mp hl
      rw [extend, run_bind_of_ok (run_take s), run_bind_eq_ok] at h
      obtain ⟨args, s₁, ha, h⟩ := h
      cases h
      obtain ⟨v, z, hv, hz, hd⟩ :=
        plainList_sound (S := .expr 0) (by decide) hexpr.loosest ht ha
      refine ⟨s.head :: (v ++ [z]), List.cons_ne_nil _ _, ?_, fun w hw => .call hw hk hd hz,
        Kind.below_operand _⟩
      rw [TokenStream.prepend_cons, ← hv, ← hp]
  | binary op l r =>
      obtain ⟨hop, hr⟩ := Kind.mem_operators_of_link? hl
      rw [extend, run_bind_of_ok (run_take s), run_operandAhead_bind_eq_ok] at h
      obtain ⟨-, h⟩ := h
      rw [run_bind_eq_ok] at h
      obtain ⟨right, s₁, he, h⟩ := h
      cases h
      obtain ⟨v, hv, hd, hb⟩ := hexpr ht he
      rw [hr] at hd hb
      refine ⟨s.head :: v, List.cons_ne_nil _ _, ?_, fun w hw => .binary hw hop hd, hb⟩
      rw [TokenStream.prepend_cons, ← hv, ← hp]

/-- The loop over the links.  The invariant: what has been read so far is of a layer that the
power allows, and the links after it are not tighter than this layer. -/
theorem linksIn_sound {expr : Nat → Reader Expr} (hexpr : SoundExpr expr) {power : Nat}
    (bound : List Token) {layer : Nat} {w : List Token} {left e : Expr} {s s' : TokenStream}
    (hs : s.Ended) (hw : Derives (.expr layer) w left) (hp : layerAt power ≤ layer)
    (hb : s.head.kind.Below (layer + 1))
    (h : (linksIn expr power bound left).run s = .ok e s') :
  ∃ v, s = s'.prepend v ∧ Derives (.expr (layerAt power)) (w ++ v) e
    ∧ s'.head.kind.Below (layerAt power)
  := by
  induction bound generalizing layer w left s with
  | nil => cases h
  | cons _ bound ih =>
      unfold linksIn at h
      rw [run_bind_of_ok (run_next s)] at h
      split at h
      · rename_i hl
        cases h
        refine ⟨[], rfl, ?_, ?_⟩
        · rw [List.append_nil]
          apply hw.looser hp
        · intro link hl'
          rw [hl] at hl'
          cases hl'
      · rename_i link hl
        have hiff := Kind.power_lt_iff hl power
        split at h
        · rename_i hlt
          cases h
          refine ⟨[], rfl, ?_, ?_⟩
          · rw [List.append_nil]
            apply hw.looser hp
          · intro link' hl'
            rw [hl] at hl'
            cases hl'
            apply hiff.mp hlt
        · rename_i hge
          have hle : link.layer ≤ layer := Nat.le_of_lt_succ (hb link hl)
          rw [run_bind_eq_ok] at h
          obtain ⟨wider, s₁, hx, h⟩ := h
          obtain ⟨v, -, rfl, hv, hb'⟩ := extend_sound hexpr hs hl hx
          have hge' : layerAt power ≤ link.layer := by
            rw [hiff] at hge
            omega
          obtain ⟨v', hv', hd, hb''⟩ := ih hs.of_prepend (hv w (hw.looser hle)) hge' hb' h
          refine ⟨v ++ v', ?_, ?_, hb''⟩
          · rw [TokenStream.prepend_append, ← hv']
          · rw [← List.append_assoc]
            apply hd

/-! ### Statements -/

/-- Statements up to a closing token. -/
theorem upToIn_sound {close : Kind} {r : Reader Stmt} (hr : SoundStmt r) (bound : List Token)
    {ss : List Stmt} {s s' : TokenStream} (hs : s.Ended)
    (h : (upToIn close r bound).run s = .ok ss s') :
  s'.head.kind = close ∧ ∃ w, s = s'.prepend w ∧ Derives .stmts w ss
  := by
  induction bound generalizing ss s with
  | nil => cases h
  | cons _ bound ih =>
      rw [upToIn] at h
      by_cases hc : s.head.kind = close
      · rw [run_if_nextIs_of_eq hc] at h
        cases h
        exact ⟨hc, [], rfl, .noStmts⟩
      · rw [run_if_nextIs_of_ne hc] at h
        by_cases heof : s.head.kind = .eof
        · rw [run_if_nextIs_of_eq heof] at h
          cases h
        · rw [run_if_nextIs_of_ne heof, run_bind_eq_ok] at h
          obtain ⟨a, s₁, ha, h⟩ := h
          rw [run_bind_eq_ok] at h
          obtain ⟨as, s₂, has, h⟩ := h
          cases h
          obtain ⟨unended, v, rfl, hv, hb⟩ := hr hs ha
          obtain ⟨hc', w, rfl, hw⟩ := ih hs.of_prepend has
          refine ⟨hc', v ++ w, (TokenStream.prepend_append _ _ _).symm, .moreStmts hv hw ?_⟩
          intro hu t ht
          apply Kind.below_zero.mp
          cases w with
          | nil => cases ht
          | cons u w =>
              cases ht
              apply hb hu

/-- Statements up to a closing token. -/
theorem upTo_sound {close : Kind} {r : Reader Stmt} (hr : SoundStmt r) {ss : List Stmt}
    {s s' : TokenStream} (hs : s.Ended) (h : (upTo close r).run s = .ok ss s') :
  s'.head.kind = close ∧ ∃ w, s = s'.prepend w ∧ Derives .stmts w ss
  := by
  unfold upTo at h
  rw [run_bind_of_ok (EStateM.run_get s)] at h
  apply upToIn_sound hr _ hs h

/-! ### All readers -/

/-- The readers within a limit are sound. -/
structure SoundAt (limit : Nat) : Prop where
  statement : SoundStmt (statement limit)
  block : Sound .block (block limit)
  expression : SoundExpr (expression limit)
  operand : Sound (.expr 7) (operand limit)
  conditional : Sound .cond (conditional limit)

theorem block_sound {limit : Nat} (ih : SoundAt limit) :
  Sound .block (block (limit + 1))
  := by
  intro s b s' hs h
  rw [block, run_require_bind_eq_ok] at h
  obtain ⟨hk, h⟩ := h
  obtain ⟨hp, ht⟩ := hs.eq_push_of_kind hk (by decide)
  rw [run_bind_eq_ok] at h
  obtain ⟨ss, s₁, hss, h⟩ := h
  obtain ⟨hc, w, hw, hd⟩ := upTo_sound ih.statement ht hss
  rw [run_require_bind_eq_ok] at h
  obtain ⟨-, h⟩ := h
  cases h
  rw [hw] at ht
  obtain ⟨hq, -⟩ := ht.of_prepend.eq_push_of_kind hc (by decide)
  refine ⟨s.head :: (w ++ [s₁.head]), ?_, .braces hk hd hc⟩
  rw [TokenStream.prepend_cons, TokenStream.prepend_concat, ← hq, ← hw, ← hp]

theorem expression_sound {limit : Nat} (ih : SoundAt limit) :
  SoundExpr (expression (limit + 1))
  := by
  intro power s e s' hs h
  rw [expression, run_bind_eq_ok] at h
  obtain ⟨left, s₁, hl, h⟩ := h
  obtain ⟨w, rfl, hw⟩ := ih.operand hs hl
  unfold links at h
  rw [run_bind_of_ok (EStateM.run_get s₁)] at h
  have hp : layerAt power ≤ 7 := by
    grind [layerAt]
  have hb := (Kind.below_operand s₁.head.kind).mono (Nat.le_succ 7)
  obtain ⟨v, rfl, hd, hb'⟩ := linksIn_sound ih.expression _ hs.of_prepend hw hp hb h
  exact ⟨w ++ v, (TokenStream.prepend_append _ _ _).symm, hd, hb'⟩

theorem conditional_sound {limit : Nat} (ih : SoundAt limit) :
  Sound .cond (conditional (limit + 1))
  := by
  intro s e s' hs h
  rw [conditional, run_require_bind_eq_ok] at h
  obtain ⟨hk, h⟩ := h
  obtain ⟨hp, ht⟩ := hs.eq_push_of_kind hk (by decide)
  rw [run_bind_eq_ok] at h
  obtain ⟨c, s₁, hrun, h⟩ := h
  obtain ⟨w, hw, hc⟩ := ih.expression.loosest ht hrun
  rw [hw] at ht
  rw [run_bind_eq_ok] at h
  obtain ⟨yes, s₂, hrun', h⟩ := h
  obtain ⟨v, rfl, hy⟩ := ih.block ht.of_prepend hrun'
  have ht₂ := ht.of_prepend.of_prepend
  by_cases he : s₂.head.kind = .elseWord
  · obtain ⟨hq, ht₃⟩ := ht₂.eq_push_of_kind he (by decide)
    rw [run_if_nextIs_of_eq he, run_bind_of_ok (run_take s₂),
      run_bind_of_ok (run_next s₂.tail)] at h
    split at h
    · rename_i hi
      rw [run_bind_eq_ok] at h
      obtain ⟨no, s₃, hn, h⟩ := h
      cases h
      obtain ⟨v', hv', hn⟩ := ih.conditional ht₃ hn
      cases v' with
      | nil => cases hn
      | cons i v' =>
          have hi' : s₂.tail.head = i := by
            rw [hv']
            rfl
          rw [hi']
          refine ⟨_, ?_, .ifElseIf hk hc hy he hn⟩
          rw [TokenStream.prepend_cons, TokenStream.prepend_append, TokenStream.prepend_append,
            TokenStream.prepend_cons, ← hv', ← hq, ← hw, ← hp]
    · rw [run_bind_eq_ok] at h
      obtain ⟨no, s₃, hn, h⟩ := h
      cases h
      obtain ⟨v', hv', hn⟩ := ih.block ht₃ hn
      refine ⟨_, ?_, .ifElse hk hc hy he hn⟩
      rw [TokenStream.prepend_cons, TokenStream.prepend_append, TokenStream.prepend_append,
        TokenStream.prepend_cons, ← hv', ← hq, ← hw, ← hp]
  · rw [run_if_nextIs_of_ne he] at h
    cases h
    refine ⟨_, ?_, .ifThen hk hc hy⟩
    rw [TokenStream.prepend_cons, TokenStream.prepend_append, ← hw, ← hp]

theorem operand_sound {limit : Nat} (ih : SoundAt limit) :
  Sound (.expr 7) (operand (limit + 1))
  := by
  intro s e s' hs h
  rw [operand, run_bind_of_ok (run_next s)] at h
  split at h
  case h_1 hk =>
    obtain ⟨hp, -⟩ := hs.eq_push_of_kind hk (by decide)
    rw [run_bind_of_ok (run_take s), run_bind_eq_ok] at h
    obtain ⟨n, s₁, hn, h⟩ := h
    cases h
    obtain ⟨hd, hm, rfl, rfl⟩ := run_number_eq_ok.mp hn
    exact ⟨[s.head], hp, .int hk hd hm⟩
  case h_2 hk =>
    obtain ⟨hp, -⟩ := hs.eq_push_of_kind hk (by decide)
    cases h
    exact ⟨[s.head], hp, .trueWord hk⟩
  case h_3 hk =>
    obtain ⟨hp, -⟩ := hs.eq_push_of_kind hk (by decide)
    cases h
    exact ⟨[s.head], hp, .falseWord hk⟩
  case h_4 hk =>
    obtain ⟨hp, -⟩ := hs.eq_push_of_kind hk (by decide)
    cases h
    exact ⟨[s.head], hp, .str hk⟩
  case h_5 hk =>
    obtain ⟨hp, -⟩ := hs.eq_push_of_kind hk (by decide)
    cases h
    exact ⟨[s.head], hp, .ident hk⟩
  case h_6 hk =>
    obtain ⟨hp, ht⟩ := hs.eq_push_of_kind hk (by decide)
    rw [run_bind_of_ok (run_afterNext s)] at h
    split at h
    · cases h
    · rw [run_bind_of_ok (run_take s), run_bind_eq_ok] at h
      obtain ⟨inner, s₁, hi, h⟩ := h
      obtain ⟨w, hw, hd⟩ := ih.expression.loosest ht hi
      rw [run_require_bind_eq_ok] at h
      obtain ⟨hc, h⟩ := h
      cases h
      rw [hw] at ht
      obtain ⟨hq, -⟩ := ht.of_prepend.eq_push_of_kind hc (by decide)
      refine ⟨s.head :: (w ++ [s₁.head]), ?_, .group hk hd hc⟩
      rw [TokenStream.prepend_cons, TokenStream.prepend_concat, ← hq, ← hw, ← hp]
  case h_7 hk =>
    obtain ⟨w, hw, hd⟩ := ih.conditional hs h
    exact ⟨w, hw, .cond hd⟩
  case h_8 hk =>
    obtain ⟨hp, ht⟩ := hs.eq_push_of_kind hk (by decide)
    rw [run_bind_of_ok (run_take s), run_require_bind_eq_ok] at h
    obtain ⟨hl, h⟩ := h
    obtain ⟨hp', ht'⟩ := ht.eq_push_of_kind hl (by decide)
    rw [run_bind_eq_ok] at h
    obtain ⟨params, s₁, hps, h⟩ := h
    obtain ⟨w, z, hw, hz, hd⟩ :=
      plainList_sound (S := .parameter) (by decide) parameter_sound ht' hps
    rw [run_bind_eq_ok] at h
    obtain ⟨body, s₂, hb, h⟩ := h
    cases h
    rw [hw] at ht'
    obtain ⟨v, rfl, hv⟩ := ih.block ht'.of_prepend hb
    refine ⟨_, ?_, .fn hk hl hd hz hv⟩
    rw [TokenStream.prepend_cons, TokenStream.prepend_cons, hp, hp', hw]
    simp [TokenStream.prepend_append]
  case h_9 hk =>
    obtain ⟨hp, ht⟩ := hs.eq_push_of_kind hk (by decide)
    rw [run_bind_of_ok (run_take s), run_bind_eq_ok] at h
    obtain ⟨es, s₁, hes, h⟩ := h
    cases h
    obtain ⟨w, z, hw, hz, hd⟩ :=
      plainList_sound (S := .expr 0) (by decide) ih.expression.loosest ht hes
    refine ⟨s.head :: (w ++ [z]), ?_, .array hk hd hz⟩
    rw [TokenStream.prepend_cons, ← hw, ← hp]
  case h_10 hk =>
    obtain ⟨hp, ht⟩ := hs.eq_push_of_kind hk (by decide)
    rw [run_bind_of_ok (run_take s), run_bind_eq_ok] at h
    obtain ⟨es, s₁, hes, h⟩ := h
    cases h
    obtain ⟨hn, w, z, hw, hz, hd⟩ := entries_sound ih.expression ht hes
    refine ⟨s.head :: (w ++ [z]), ?_, .map hk hd hn hz⟩
    rw [TokenStream.prepend_cons, ← hw, ← hp]
  case h_11 =>
    split at h
    · rename_i op hop
      have hne : s.head.kind ≠ .eof := by
        intro hk
        rw [hk] at hop
        cases hop
      obtain ⟨hp, ht⟩ := hs.eq_push_of_kind rfl hne
      rw [run_bind_of_ok (run_take s), run_operandAhead_bind_eq_ok] at h
      obtain ⟨-, h⟩ := h
      rw [run_bind_eq_ok] at h
      obtain ⟨inner, s₁, hi, h⟩ := h
      cases h
      obtain ⟨w, hw, hd, -⟩ := ih.expression ht hi
      refine ⟨s.head :: w, ?_, .unary (Kind.unary?_eq_some.mp hop) hd⟩
      rw [TokenStream.prepend_cons, ← hw, ← hp]
    · cases h

theorem statement_sound {limit : Nat} (ih : SoundAt limit) :
  SoundStmt (statement (limit + 1))
  := by
  intro s a s' hs h
  rw [statement, run_bind_of_ok (run_next s)] at h
  split at h
  case h_1 hk =>
    obtain ⟨hp, ht⟩ := hs.eq_push_of_kind hk (by decide)
    rw [run_bind_of_ok (run_take s), run_require_bind_eq_ok] at h
    obtain ⟨hn, h⟩ := h
    obtain ⟨hp₁, ht₁⟩ := ht.eq_push_of_kind hn (by decide)
    rw [run_require_bind_eq_ok] at h
    obtain ⟨ha, h⟩ := h
    obtain ⟨hp₂, ht₂⟩ := ht₁.eq_push_of_kind ha (by decide)
    rw [run_bind_eq_ok] at h
    obtain ⟨e, s₁, he, h⟩ := h
    obtain ⟨w, hw, hd⟩ := ih.expression.loosest ht₂ he
    rw [run_require_bind_eq_ok] at h
    obtain ⟨hz, h⟩ := h
    cases h
    rw [hw] at ht₂
    obtain ⟨hq, -⟩ := ht₂.of_prepend.eq_push_of_kind hz (by decide)
    refine ⟨false, _, ?_, .bind hk hn ha hd hz, fun hu => by cases hu⟩
    rw [TokenStream.prepend_cons, TokenStream.prepend_cons, TokenStream.prepend_cons,
      TokenStream.prepend_concat, ← hq, ← hw,
      ← hp₂, ← hp₁, ← hp]
  case h_2 hk =>
    obtain ⟨hp, ht⟩ := hs.eq_push_of_kind hk (by decide)
    rw [run_bind_of_ok (run_take s), run_bind_eq_ok] at h
    obtain ⟨e, s₁, he, h⟩ := h
    obtain ⟨w, hw, hd⟩ := ih.expression.loosest ht he
    rw [run_require_bind_eq_ok] at h
    obtain ⟨hz, h⟩ := h
    cases h
    rw [hw] at ht
    obtain ⟨hq, -⟩ := ht.of_prepend.eq_push_of_kind hz (by decide)
    refine ⟨false, _, ?_, .ret hk hd hz, fun hu => by cases hu⟩
    rw [TokenStream.prepend_cons, TokenStream.prepend_concat, ← hq, ← hw, ← hp]
  case h_3 hk =>
    rw [run_bind_eq_ok] at h
    obtain ⟨b, s₁, hb, h⟩ := h
    obtain ⟨w, rfl, hd⟩ := ih.block hs hb
    rw [run_bind_of_ok (run_skip .semicolon s₁)] at h
    cases h
    split
    · rename_i hz
      obtain ⟨hq, -⟩ := hs.of_prepend.eq_push_of_kind hz (by decide)
      refine ⟨false, w ++ [s₁.head], ?_, .blockEnded hd hz, fun hu => by cases hu⟩
      rw [TokenStream.prepend_concat, ← hq]
    · exact ⟨false, w, rfl, .block hd, fun hu => by cases hu⟩
  case h_4 hl hr hk =>
    rw [run_bind_eq_ok] at h
    obtain ⟨e, s₁, he, h⟩ := h
    obtain ⟨w, rfl, hd, hb⟩ := ih.expression hs he
    rw [run_bind_of_ok (run_skip .semicolon s₁)] at h
    cases h
    cases w with
    | nil => apply absurd rfl (hd.ne_nil rfl)
    | cons t w =>
        split
        · rename_i hz
          obtain ⟨hq, -⟩ := hs.of_prepend.eq_push_of_kind hz (by decide)
          refine ⟨false, t :: (w ++ [s₁.head]), ?_, .exprEnded hk hd hz, fun hu => by cases hu⟩
          rw [TokenStream.prepend_cons, TokenStream.prepend_cons, TokenStream.prepend_concat, ← hq]
        · exact ⟨true, t :: w, rfl, .expr hk hd, fun _ => hb⟩

/-- Whatever the readers take off an ended stream is derived by the grammar. -/
theorem soundAt (limit : Nat) :
  SoundAt limit
  := by
  induction limit with
  | zero =>
      constructor
      all_goals
        intro
        intros
        contradiction
  | succ limit ih =>
      constructor
      · apply statement_sound ih
      · apply block_sound ih
      · apply expression_sound ih
      · apply operand_sound ih
      · apply conditional_sound ih

end ExprScript.Reader
