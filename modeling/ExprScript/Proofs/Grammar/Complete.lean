import ExprScript.Proofs.Grammar.Power
import ExprScript.Proofs.Reader.Run

/-!
# What is derived is read

A reader takes what its symbol derives off every stream that starts with it, yields the tree of
the derivation and leaves the rest, if the limit allows for three nested readers for each token
and if the next token of the rest cannot be taken for a part of what was derived.

The loop over the links is followed through a derivation from the left: reading an expression
comes down to going on with its tree, as long as the link after it is not tighter than its layer.
-/

namespace ExprScript.Reader

open Stateful Grammar

attribute [local simp] statement block expression operand conditional

/-- A token of this kind ends every expression in front of it. -/
def Closes (k : Kind) : Prop := k.link? = none ∧ k ≠ .elseWord

instance (k : Kind) : Decidable (Closes k) := inferInstanceAs (Decidable (_ ∧ _))

/-- Items with commas in between, each with the tokens it is made of. -/
inductive Items {α : Type} (P : List Token → α → Prop) : List Token → List α → Prop
  | none : Items P [] []
  | last {w a} : P w a → Items P w [a]
  | more {w a} {t : Token} {v as} :
    P w a → t.kind = .comma → Items P v as → Items P (w ++ t :: v) (a :: as)

/-- The readers for a symbol take the tokens `w` off every stream on which they lie, and yield
the tree. -/
def Complete : (S : Sym) → List Token → S.Tree → Prop
  | .program, _, _ | .parameter, _, _ => True
  | .stmts, w, ss => ∀ limit close rest bound, 3 * w.length + 1 ≤ limit →
      close = .rbrace ∨ close = .eof → rest.head.kind = close →
      (rest.prepend w).left < bound.length →
      (upToIn close (statement limit) bound).run (rest.prepend w) = .ok ss rest
  | .stmt unended, w, s => ∀ limit rest, 3 * w.length + 1 ≤ limit →
      rest.head.kind ≠ .semicolon → rest.head.kind ≠ .elseWord →
      (unended = true → ¬ GoesOn rest.head.kind) →
      (statement limit).run (rest.prepend w) = .ok s rest
  | .block, w, b => ∀ limit rest, 3 * w.length ≤ limit + 1 →
      (block limit).run (rest.prepend w) = .ok b rest
  | .expr layer, w, e => ∀ limit power rest, 3 * w.length ≤ limit + 1 →
      layerAt power ≤ layer → rest.head.kind.Below (layer + 1) → rest.head.kind ≠ .elseWord →
      ∃ bound, rest.left < bound.length ∧
        (expression (limit + 1) power).run (rest.prepend w)
          = (linksIn (expression limit) power bound e).run rest
  | .cond, w, e => ∀ limit rest, 3 * w.length ≤ limit + 2 → rest.head.kind ≠ .elseWord →
      (conditional limit).run (rest.prepend w) = .ok e rest
  | .entry, w, p => ∀ limit seen rest, 3 * w.length ≤ limit → Closes rest.head.kind →
      p.1 ∉ seen.map Prod.fst →
      (entry (expression limit) seen).run (rest.prepend w) = .ok p rest
  | .list item, w, as => Items (fun w a => Derives item w a ∧ Complete item w a) w as

/-! ### Expressions -/

/-- The loop ends where no link is tight enough. -/
theorem linksIn_of_below {expr : Nat → Reader Expr} {power : Nat} {bound : List Token} {e : Expr}
    {s : TokenStream} (hb : s.left < bound.length) (h : s.head.kind.Below (layerAt power)) :
  (linksIn expr power bound e).run s = .ok e s
  := by
  cases bound with
  | nil => cases hb
  | cons _ bound =>
      unfold linksIn
      rw [run_bind_of_ok (run_next s)]
      split
      · rfl
      · rename_i link hl
        rw [if_pos ((Kind.power_lt_iff hl power).mpr (h link hl))]
        rfl

/-- The loop goes on along a link that is tight enough. -/
theorem linksIn_of_link (expr : Nat → Reader Expr) (e : Expr) {power : Nat} {bound : List Token}
    {s : TokenStream} {link : Link} (hb : s.left < bound.length)
    (hl : s.head.kind.link? = some link) (hp : layerAt power ≤ link.layer) :
  ∃ bound', bound.length = bound'.length + 1 ∧
    (linksIn expr power bound e).run s
      = (extend expr e link >>= linksIn expr power bound').run s
  := by
  cases bound with
  | nil => cases hb
  | cons _ bound =>
      refine ⟨bound, rfl, ?_⟩
      have hlt : ¬ link.power < power := by
        rw [Kind.power_lt_iff hl]
        omega
      conv => lhs; unfold linksIn
      rw [run_bind_of_ok (run_next s), hl]
      simp only [hlt, if_false]

/-- An expression that the reader goes on with is read as it is, if no link after it is tight
enough. -/
theorem Complete.run_expression {layer power : Nat} {w : List Token} {e : Expr}
    (h : Complete (.expr layer) w e) {limit : Nat} {rest : TokenStream}
    (hl : 3 * w.length ≤ limit) (hw : w ≠ []) (hp : layerAt power ≤ layer)
    (hb : rest.head.kind.Below (layerAt power)) (he : rest.head.kind ≠ .elseWord) :
  (expression limit power).run (rest.prepend w) = .ok e rest
  := by
  have hpos := List.length_pos_iff.mpr hw
  obtain ⟨limit, rfl⟩ : ∃ n, limit = n + 1 := ⟨limit - 1, by omega⟩
  obtain ⟨bound, hbound, hrun⟩ := h limit power rest hl hp (hb.mono (by omega)) he
  rw [hrun]
  apply linksIn_of_below hbound hb

/-- An expression of any kind is read up to a token that closes it. -/
theorem Complete.run_closed {w : List Token} {e : Expr} (hd : Derives (.expr 0) w e)
    (h : Complete (.expr 0) w e) {limit : Nat} {rest : TokenStream} (hl : 3 * w.length ≤ limit)
    (hr : Closes rest.head.kind) :
  (expression limit 0).run (rest.prepend w) = .ok e rest
  := by
  apply h.run_expression hl (hd.ne_nil rfl) (Nat.zero_le _)
  · apply Kind.below_of_link?_eq_none hr.1
  · apply hr.2

/-- What is read as an operand is an expression of the tightest layer. -/
theorem complete_of_operand {w : List Token} {e : Expr}
    (h : ∀ limit rest, 3 * w.length ≤ limit + 1 → rest.head.kind ≠ .elseWord →
      (operand limit).run (rest.prepend w) = .ok e rest) :
  Complete (.expr 7) w e
  := by
  intro limit power rest hl hp hb he
  refine ⟨rest.bound, Nat.lt_succ_self _, ?_⟩
  rw [expression, run_bind_of_ok (h limit rest hl he)]
  rfl

/-- The first token of an expression on a stream. -/
theorem opensExpr_head {layer : Nat} {w : List Token} {e : Expr} (h : Derives (.expr layer) w e)
    (rest : TokenStream) :
  opensExpr (rest.prepend w).head.kind = true
  := by
  cases w with
  | nil => apply absurd rfl (h.ne_nil rfl)
  | cons t w => apply h.opens t rfl

theorem barsOperand_of_opensExpr {k : Kind} :
  opensExpr k = true → k.barsOperand = false
  := by
  cases k <;> decide

/-- An operand is ahead where an expression starts. -/
theorem run_operandAhead_of_opensExpr {s : TokenStream} (h : opensExpr s.head.kind = true) :
  operandAhead.run s = .ok () s
  := by
  rw [run_operandAhead, barsOperand_of_opensExpr h]
  rfl

/-- A step along a link of its own layer goes on with an expression. -/
theorem complete_of_extend {layer : Nat} {w v : List Token} {left wider : Expr} {t : Token}
    {link : Link} (hl : Complete (.expr layer) w left) (hlink : t.kind.link? = some link)
    (hlayer : link.layer = layer)
    (hx : ∀ limit rest, 3 * v.length ≤ limit → rest.head.kind.Below (layer + 1) →
      rest.head.kind ≠ .elseWord →
      (extend (expression limit) left link).run ((rest.prepend v).push t) = .ok wider rest) :
  Complete (.expr layer) (w ++ t :: v) wider
  := by
  intro limit power rest hlim hp hb he
  simp only [List.length_append, List.length_cons] at hlim
  -- the expression is read up to the link, because the link is not tighter than its layer
  obtain ⟨bound, hbound, hrun⟩ := hl limit power ((rest.prepend v).push t) (by omega) hp
    (fun link' h => by cases hlink.symm.trans h; omega)
    (fun h => by rw [TokenStream.head_push] at h; rw [h] at hlink; cases hlink)
  obtain ⟨bound', hlen, hstep⟩ :=
    linksIn_of_link (expression limit) left hbound hlink (hlayer.symm ▸ hp)
  refine ⟨bound', ?_, ?_⟩
  · simp only [TokenStream.left_push, TokenStream.left_prepend] at hbound
    omega
  · rw [TokenStream.prepend_append, TokenStream.prepend_cons, hrun, hstep,
      run_bind_of_ok (hx limit rest (by omega) hb he)]

theorem complete_binary {layer : Nat} {w v : List Token} {l r : Expr} {t : Token} {op : BinaryOp}
    (hl : Complete (.expr layer) w l) (ht : (t.kind, op) ∈ operators layer)
    (hd : Derives (.expr (layer + 1)) v r) (hr : Complete (.expr (layer + 1)) v r) :
  Complete (.expr layer) (w ++ t :: v) (.binary l.pos l op r)
  := by
  obtain ⟨left, right, hlink, hleft, hright⟩ := Kind.link?_of_mem_operators ht
  apply complete_of_extend hl hlink hleft
  intro limit rest hlim hb he
  -- the right operand is read up to a link that is not tighter than the operator
  have hrun : (expression limit right).run (rest.prepend v) = .ok r rest := by
    apply hr.run_expression hlim (hd.ne_nil rfl) (Nat.le_of_eq hright) _ he
    rw [hright]
    apply hb
  rw [extend, run_bind_of_ok (run_take_push _ _),
    run_bind_of_ok (run_operandAhead_of_opensExpr (opensExpr_head hd rest)), run_bind_of_ok hrun]
  rfl

theorem complete_index {w v : List Token} {c i : Expr} {t z : Token}
    (hc : Complete (.expr 6) w c) (ht : t.kind = .lbracket) (hd : Derives (.expr 0) v i)
    (hi : Complete (.expr 0) v i) (hz : z.kind = .rbracket) :
  Complete (.expr 6) (w ++ t :: (v ++ [z])) (.index c.pos c i)
  := by
  apply complete_of_extend hc (Kind.link?_eq_index.mpr ht) rfl
  intro limit rest hlim hb he
  rw [List.length_append] at hlim
  have hclose : Closes (rest.push z).head.kind := by
    rw [TokenStream.head_push, hz]
    decide
  rw [extend, run_bind_of_ok (run_take_push _ _), TokenStream.prepend_concat,
    run_bind_of_ok (hi.run_closed hd (by omega) hclose), run_bind_of_ok (run_require_push hz _)]
  rfl

/-! ### Lists -/

section Lists

variable {α : Type} {P : List Token → α → Prop} {Q : List α → Prop} {item : List α → Reader α}
  {close : Kind} {n : Nat}
  (hitem : ∀ ⦃done later w a rest⦄, P w a → w.length ≤ n → Q (done.reverse ++ a :: later) →
    rest.head.kind = .comma ∨ rest.head.kind = close →
    (item done).run (rest.prepend w) = .ok a rest)
  (hopen : ∀ ⦃w a rest⦄, P w a → (TokenStream.prepend w rest).head.kind ≠ close)
  (hclose : close ≠ .comma)

include hitem hopen hclose

/-- Items are read one after the other up to the closing token. -/
theorem listIn_complete {w : List Token} {as : List α} (h : Items P w as) {bound : List Token}
    {d : List α} {rest : TokenStream} (hn : w.length ≤ n) (hQ : Q (d.reverse ++ as))
    (hr : rest.head.kind = close) (hb : (rest.prepend w).left < bound.length) :
  (listIn close item bound d).run (rest.prepend w) = .ok (d.reverse ++ as) rest
  := by
  induction h generalizing bound d with
  | none =>
      cases bound with
      | nil => cases hb
      | cons _ bound => simp [listIn, hr]
  | @last w a hP =>
      cases bound with
      | nil => cases hb
      | cons _ bound =>
          rw [listIn, run_if_nextIs_of_ne (hopen hP), run_bind_of_ok (hitem hP hn hQ (.inr hr)),
            run_if_nextIs_of_ne (hr ▸ hclose), run_if_nextIs_of_eq hr, List.reverse_cons]
          rfl
  | @more w a t v as hP ht hv ih =>
      cases bound with
      | nil => cases hb
      | cons _ bound =>
          simp only [List.length_append, List.length_cons] at hn
          simp only [TokenStream.left_prepend, List.length_append, List.length_cons] at hb
          have hnext : ((rest.prepend v).push t).head.kind = .comma := ht
          rw [TokenStream.prepend_append, TokenStream.prepend_cons, listIn,
            run_if_nextIs_of_ne (hopen hP), run_bind_of_ok (hitem hP (by omega) hQ (.inl hnext)),
            run_if_nextIs_of_eq hnext, run_bind_of_ok (run_take_push _ _), ih (by omega)]
          · simp
          · simpa using hQ
          · rw [TokenStream.left_prepend]
            omega

/-- A list is read with its closing token. -/
theorem list_complete {w : List Token} {as : List α} (h : Items P w as) {z : Token}
    {rest : TokenStream} (hn : w.length ≤ n) (hQ : Q as) (hz : z.kind = close) :
  (list close item).run (rest.prepend (w ++ [z])) = .ok as rest
  := by
  have hnext : (rest.push z).head.kind = close := hz
  have hrun := listIn_complete hitem hopen hclose h (d := []) hn hQ hnext
    (TokenStream.left_lt_length_bound _)
  rw [TokenStream.prepend_concat, list, run_bind_of_ok (EStateM.run_get _), run_bind_of_ok hrun,
    run_bind_of_ok (run_require_push hz _)]
  rfl

end Lists

/-- The readers of expressions in a list. -/
theorem exprs_complete {w : List Token} {es : List Expr} {close : Kind} {z : Token} {limit : Nat}
    (h : Complete (.list (.expr 0)) w es) (hl : 3 * w.length ≤ limit) (hz : z.kind = close)
    (hclose : Closes close) (hopen : opensExpr close = false) (hcomma : close ≠ .comma)
    (rest : TokenStream) :
  (list close fun _ => expression limit 0).run (rest.prepend (w ++ [z])) = .ok es rest
  := by
  apply list_complete (Q := fun _ => True) _ _ hcomma h (Nat.le_refl _) trivial hz
  · rintro - - v e rest ⟨hd, hc⟩ hv - hr
    apply hc.run_closed hd (by omega)
    rcases hr with hr | hr <;> rw [hr]
    · decide
    · apply hclose
  · rintro v e rest ⟨hd, -⟩ hk
    have ho := opensExpr_head hd rest
    rw [hk, hopen] at ho
    cases ho

theorem complete_call {w v : List Token} {f : Expr} {args : List Expr} {t z : Token}
    (hf : Complete (.expr 6) w f) (ht : t.kind = .lparen)
    (ha : Complete (.list (.expr 0)) v args) (hz : z.kind = .rparen) :
  Complete (.expr 6) (w ++ t :: (v ++ [z])) (.call f.pos f args)
  := by
  apply complete_of_extend hf (Kind.link?_eq_call.mpr ht) rfl
  intro limit rest hlim hb he
  rw [List.length_append] at hlim
  rw [extend, run_bind_of_ok (run_take_push _ _),
    run_bind_of_ok (exprs_complete ha (by omega) hz (by decide) (by decide) (by decide) rest)]
  rfl

/-- The parameters of a function are read with the parenthesis after them. -/
theorem parameters_complete {w : List Token} {names : List String} {z : Token}
    (h : Complete (.list .parameter) w names) (hz : z.kind = .rparen) (rest : TokenStream) :
  (list .rparen fun _ => parameter).run (rest.prepend (w ++ [z])) = .ok names rest
  := by
  apply list_complete (Q := fun _ => True) _ _ (by decide) h (Nat.le_refl _) trivial hz
  · rintro - - v a rest ⟨hd, -⟩ - - -
    cases hd with
    | parameter hk =>
        rw [Reader.parameter, TokenStream.prepend_cons, run_bind_of_ok (run_require_push hk _)]
        rfl
  · rintro v a rest ⟨hd, -⟩ hk'
    cases hd with
    | parameter hk => cases hk.symm.trans hk'

theorem complete_entry {w : List Token} {e : Expr} {t c : Token} (ht : t.kind = .string)
    (hc : c.kind = .colon) (hd : Derives (.expr 0) w e) (he : Complete (.expr 0) w e) :
  Complete .entry (t :: c :: w) (t.literal, e)
  := by
  intro limit seen rest hlim hr hn
  simp only [List.length_cons] at hlim
  rw [TokenStream.prepend_cons, TokenStream.prepend_cons, entry, run_bind_of_ok (run_next _),
    TokenStream.head_push, if_pos ht, run_bind_of_ok (run_take_push _ _), if_neg,
    run_bind_of_ok (run_require_push hc _), run_bind_of_ok (he.run_closed hd (by omega) hr)]
  · rfl
  · intro hany
    obtain ⟨p, hp, hk⟩ := List.any_eq_true.mp hany
    apply hn
    apply List.mem_map.mpr ⟨p, hp, of_decide_eq_true hk⟩

/-- A key of a map is none of those in front of it. -/
theorem unseen_of_nodup {done later : List (String × Expr)} {p : String × Expr}
    (h : ((done.reverse ++ p :: later).map Prod.fst).Nodup) :
  p.1 ∉ done.map Prod.fst
  := by
  rw [List.map_append, List.map_cons] at h
  intro hmem
  apply (List.nodup_append.mp h).2.2 p.1 _ p.1 List.mem_cons_self rfl
  rw [List.map_reverse]
  apply List.mem_reverse.mpr hmem

/-- The entries of a map are read with the brace after them. -/
theorem entries_complete {w : List Token} {es : List (String × Expr)} {z : Token} {limit : Nat}
    (h : Complete (.list .entry) w es) (hl : 3 * w.length ≤ limit)
    (hn : (es.map Prod.fst).Nodup) (hz : z.kind = .rbrace) (rest : TokenStream) :
  (list .rbrace (entry (expression limit))).run (rest.prepend (w ++ [z])) = .ok es rest
  := by
  apply list_complete (Q := fun es : List (String × Expr) => (es.map Prod.fst).Nodup) _ _
    (by decide) h (Nat.le_refl _) hn hz
  · rintro done later v p rest ⟨-, hp⟩ hv hQ hr
    apply hp _ _ _ (by omega) _ (unseen_of_nodup hQ)
    rcases hr with hr | hr <;> rw [hr] <;> decide
  · rintro v p rest ⟨hd, -⟩ hk'
    cases hd with
    | entry hk _ _ => cases hk.symm.trans hk'

/-! ### Operands -/

/-- An atom of one token is read if the reader makes it of that token. -/
theorem complete_atom {t : Token} {e : Expr}
    (h : ∀ limit rest, (operand (limit + 1)).run (TokenStream.push t rest) = .ok e rest) :
  Complete (.expr 7) [t] e
  := by
  apply complete_of_operand
  intro limit rest hlim hr
  rw [List.length_singleton] at hlim
  obtain ⟨limit, rfl⟩ : ∃ n, limit = n + 1 := ⟨limit - 1, by omega⟩
  apply h

theorem complete_int {t : Token} (ht : t.kind = .int) (hd : t.literal.length ≤ 4300)
    (hm : Decimal.value t.literal ≤ 2147483647) :
  Complete (.expr 7) [t] (.int (some t.pos) (Decimal.value t.literal))
  := by
  apply complete_atom
  intro limit rest
  have hn : (number t).run rest = .ok (Decimal.value t.literal : Int) rest :=
    run_number_eq_ok.mpr ⟨hd, hm, rfl, rfl⟩
  rw [operand, run_bind_of_ok (run_next _), TokenStream.head_push]
  simp only [ht]
  rw [run_bind_of_ok (run_take_push _ _), run_bind_of_ok hn]
  rfl

theorem complete_group {w : List Token} {e : Expr} {t z : Token} (ht : t.kind = .lparen)
    (hd : Derives (.expr 0) w e) (he : Complete (.expr 0) w e) (hz : z.kind = .rparen) :
  Complete (.expr 7) (t :: (w ++ [z])) (.group (some t.pos) e)
  := by
  apply complete_of_operand
  intro limit rest hlim hr
  simp only [List.length_cons, List.length_append] at hlim
  obtain ⟨limit, rfl⟩ : ∃ n, limit = n + 1 := ⟨limit - 1, by omega⟩
  have hclose : Closes (rest.push z).head.kind := by
    rw [TokenStream.head_push, hz]
    decide
  -- the expression inside is not empty
  have hsecond : ((rest.push z).prepend w).head.kind ≠ .rparen := by
    intro hk
    have ho := opensExpr_head hd (rest.push z)
    rw [hk] at ho
    cases ho
  rw [TokenStream.prepend_cons, TokenStream.prepend_concat, operand, run_bind_of_ok (run_next _),
    TokenStream.head_push]
  simp only [ht]
  rw [run_bind_of_ok (run_afterNext _), TokenStream.second, TokenStream.tail_push,
    if_neg hsecond, run_bind_of_ok (run_take_push _ _),
    run_bind_of_ok (he.run_closed hd (by omega) hclose), run_bind_of_ok (run_require_push hz _)]
  rfl

theorem complete_cond {w : List Token} {e : Expr} (hd : Derives .cond w e)
    (he : Complete .cond w e) :
  Complete (.expr 7) w e
  := by
  apply complete_of_operand
  intro limit rest hlim hr
  have hpos := List.length_pos_iff.mpr (hd.ne_nil rfl)
  obtain ⟨limit, rfl⟩ : ∃ n, limit = n + 1 := ⟨limit - 1, by omega⟩
  have hk : (rest.prepend w).head.kind = .ifWord := by
    cases w with
    | nil => apply absurd rfl (hd.ne_nil rfl)
    | cons t w => simpa [Sym.opens] using hd.opens t rfl
  rw [operand, run_bind_of_ok (run_next _)]
  simp only [hk]
  apply he limit rest (by omega) hr

theorem complete_fn {w v : List Token} {names : List String} {body : Stmt} {t p q : Token}
    (ht : t.kind = .fnWord) (hp : p.kind = .lparen) (hw : Complete (.list .parameter) w names)
    (hq : q.kind = .rparen) (hb : Complete .block v body) :
  Complete (.expr 7) (t :: p :: (w ++ q :: v)) (.fn (some t.pos) names body)
  := by
  apply complete_of_operand
  intro limit rest hlim hr
  simp only [List.length_cons, List.length_append] at hlim
  obtain ⟨limit, rfl⟩ : ∃ n, limit = n + 1 := ⟨limit - 1, by omega⟩
  have hnames := parameters_complete hw hq (rest.prepend v)
  rw [TokenStream.prepend_concat] at hnames
  rw [TokenStream.prepend_cons, TokenStream.prepend_cons, TokenStream.prepend_append,
    TokenStream.prepend_cons, operand, run_bind_of_ok (run_next _), TokenStream.head_push]
  simp only [ht]
  rw [run_bind_of_ok (run_take_push _ _), run_bind_of_ok (run_require_push hp _),
    run_bind_of_ok hnames, run_bind_of_ok (hb limit rest (by omega))]
  rfl

theorem complete_array {w : List Token} {es : List Expr} {t z : Token} (ht : t.kind = .lbracket)
    (hw : Complete (.list (.expr 0)) w es) (hz : z.kind = .rbracket) :
  Complete (.expr 7) (t :: (w ++ [z])) (.array (some t.pos) es)
  := by
  apply complete_of_operand
  intro limit rest hlim hr
  simp only [List.length_cons, List.length_append] at hlim
  obtain ⟨limit, rfl⟩ : ∃ n, limit = n + 1 := ⟨limit - 1, by omega⟩
  rw [TokenStream.prepend_cons, operand, run_bind_of_ok (run_next _), TokenStream.head_push]
  simp only [ht]
  rw [run_bind_of_ok (run_take_push _ _),
    run_bind_of_ok (exprs_complete hw (by omega) hz (by decide) (by decide) (by decide) rest)]
  rfl

theorem complete_map {w : List Token} {es : List (String × Expr)} {t z : Token}
    (ht : t.kind = .lbrace) (hw : Complete (.list .entry) w es) (hn : (es.map Prod.fst).Nodup)
    (hz : z.kind = .rbrace) :
  Complete (.expr 7) (t :: (w ++ [z])) (.map (some t.pos) es)
  := by
  apply complete_of_operand
  intro limit rest hlim hr
  simp only [List.length_cons, List.length_append] at hlim
  obtain ⟨limit, rfl⟩ : ∃ n, limit = n + 1 := ⟨limit - 1, by omega⟩
  rw [TokenStream.prepend_cons, operand, run_bind_of_ok (run_next _), TokenStream.head_push]
  simp only [ht]
  rw [run_bind_of_ok (run_take_push _ _),
    run_bind_of_ok (entries_complete hw (by omega) hn hz rest)]
  rfl

theorem complete_unary {w : List Token} {e : Expr} {t : Token} {op : UnaryOp}
    (ht : (t.kind, op) ∈ unaryOperators) (hd : Derives (.expr 7) w e)
    (he : Complete (.expr 7) w e) :
  Complete (.expr 7) (t :: w) (.unary (some t.pos) op e)
  := by
  apply complete_of_operand
  intro limit rest hlim hr
  rw [List.length_cons] at hlim
  obtain ⟨limit, rfl⟩ : ∃ n, limit = n + 1 := ⟨limit - 1, by omega⟩
  have hrun : (expression limit unaryPower).run (rest.prepend w) = .ok e rest := by
    apply he.run_expression (by omega) (hd.ne_nil rfl) (Nat.le_refl _) _ hr
    apply Kind.below_operand
  rw [TokenStream.prepend_cons, operand, run_bind_of_ok (run_next _), TokenStream.head_push]
  have hop := Kind.unary?_eq_some.mpr ht
  split
  case h_11 =>
    rw [hop, run_bind_of_ok (run_take_push _ _),
      run_bind_of_ok (run_operandAhead_of_opensExpr (opensExpr_head hd rest)), run_bind_of_ok hrun]
    rfl
  all_goals
    rename_i hk
    rw [hk] at hop
    cases hop

/-! ### Conditionals -/

section Conditional

variable {w v : List Token} {c : Expr} {yes : Stmt} {t : Token} (ht : t.kind = .ifWord)
  (hd : Derives (.expr 0) w c) (hc : Complete (.expr 0) w c) (hdv : Derives .block v yes)
  (hv : Complete .block v yes)

include ht hd hc hdv hv

/-- A conditional is read up to what follows its first branch. -/
theorem run_conditional {limit : Nat} {s : TokenStream}
    (hl : 3 * (1 + w.length + v.length) ≤ limit + 3) :
  (conditional (limit + 1)).run (s.prepend (t :: (w ++ v)))
    = (do
        if ← nextIs .elseWord then
          let _ ← take
          let e ← next
          if e.kind = .ifWord then
            let nested ← conditional limit
            return .cond (some t.pos) c yes (some (.expr (some e.pos) nested))
          else
            let alternative ← block limit
            return .cond (some t.pos) c yes (some alternative)
        else return .cond (some t.pos) c yes none : Reader Expr).run s
  := by
  have hclose : Closes (s.prepend v).head.kind := by
    cases v with
    | nil => apply absurd rfl (hdv.ne_nil rfl)
    | cons u v =>
        have hu := hdv.opens u rfl
        simp only [Sym.opens, decide_eq_true_eq] at hu
        rw [TokenStream.prepend_cons, TokenStream.head_push, hu]
        decide
  rw [TokenStream.prepend_cons, TokenStream.prepend_append, conditional,
    run_bind_of_ok (run_require_push ht _), run_bind_of_ok (hc.run_closed hd (by omega) hclose),
    run_bind_of_ok (hv limit s (by omega))]

theorem complete_ifThen :
  Complete .cond (t :: (w ++ v)) (.cond (some t.pos) c yes none)
  := by
  intro limit rest hlim hr
  simp only [List.length_cons, List.length_append] at hlim
  have hpos := List.length_pos_iff.mpr (hd.ne_nil rfl)
  obtain ⟨limit, rfl⟩ : ∃ n, limit = n + 1 := ⟨limit - 1, by omega⟩
  rw [run_conditional ht hd hc hdv hv (by omega), run_bind_of_ok (run_nextIs _ _)]
  simp [hr]

theorem complete_ifElse {u : Token} {v' : List Token} {no : Stmt} (hu : u.kind = .elseWord)
    (hd' : Derives .block v' no) (hv' : Complete .block v' no) :
  Complete .cond (t :: (w ++ (v ++ u :: v'))) (.cond (some t.pos) c yes (some no))
  := by
  intro limit rest hlim hr
  simp only [List.length_cons, List.length_append] at hlim
  obtain ⟨limit, rfl⟩ : ∃ n, limit = n + 1 := ⟨limit - 1, by omega⟩
  have hi : (rest.prepend v').head.kind ≠ .ifWord := by
    cases v' with
    | nil => apply absurd rfl (hd'.ne_nil rfl)
    | cons i v' =>
        have hi := hd'.opens i rfl
        simp only [Sym.opens, decide_eq_true_eq] at hi
        rw [TokenStream.prepend_cons, TokenStream.head_push, hi]
        decide
  rw [← List.append_assoc, ← List.cons_append, TokenStream.prepend_append,
    run_conditional ht hd hc hdv hv (by omega), run_bind_of_ok (run_nextIs _ _)]
  simp only [TokenStream.prepend_cons, TokenStream.head_push, hu, decide_true, if_true]
  rw [run_bind_of_ok (run_take_push _ _), run_bind_of_ok (run_next _), if_neg hi,
    run_bind_of_ok (hv' limit rest (by omega))]
  rfl

theorem complete_ifElseIf {u i : Token} {v' : List Token} {no : Expr} (hu : u.kind = .elseWord)
    (hd' : Derives .cond (i :: v') no) (hv' : Complete .cond (i :: v') no) :
  Complete .cond (t :: (w ++ (v ++ u :: i :: v')))
    (.cond (some t.pos) c yes (some (.expr (some i.pos) no)))
  := by
  intro limit rest hlim hr
  simp only [List.length_cons, List.length_append] at hlim
  obtain ⟨limit, rfl⟩ : ∃ n, limit = n + 1 := ⟨limit - 1, by omega⟩
  have hi : i.kind = .ifWord := by
    simpa [Sym.opens] using hd'.opens i rfl
  rw [← List.append_assoc, ← List.cons_append, TokenStream.prepend_append,
    run_conditional ht hd hc hdv hv (by omega), run_bind_of_ok (run_nextIs _ _)]
  simp only [TokenStream.prepend_cons, TokenStream.head_push, hu, decide_true, if_true]
  rw [run_bind_of_ok (run_take_push _ _), run_bind_of_ok (run_next _), TokenStream.head_push,
    if_pos hi, ← TokenStream.prepend_cons]
  rw [run_bind_of_ok (hv' limit rest (by simp only [List.length_cons]; omega) hr)]
  rfl

end Conditional

/-! ### Statements -/

theorem complete_bind {t n a z : Token} {w : List Token} {e : Expr} (ht : t.kind = .letWord)
    (hn : n.kind = .ident) (ha : a.kind = .assign) (hd : Derives (.expr 0) w e)
    (he : Complete (.expr 0) w e) (hz : z.kind = .semicolon) :
  Complete (.stmt false) (t :: n :: a :: (w ++ [z])) (.bind (some t.pos) n.literal e)
  := by
  intro limit rest hlim _ _ _
  simp only [List.length_cons, List.length_append] at hlim
  obtain ⟨limit, rfl⟩ : ∃ n, limit = n + 1 := ⟨limit - 1, by omega⟩
  have hclose : Closes (rest.push z).head.kind := by
    rw [TokenStream.head_push, hz]
    decide
  simp only [TokenStream.prepend_cons, TokenStream.prepend_concat]
  rw [statement, run_bind_of_ok (run_next _), TokenStream.head_push]
  simp only [ht]
  rw [run_bind_of_ok (run_take_push _ _), run_bind_of_ok (run_require_push hn _),
    run_bind_of_ok (run_require_push ha _), run_bind_of_ok (he.run_closed hd (by omega) hclose),
    run_bind_of_ok (run_require_push hz _)]
  rfl

theorem complete_ret {t z : Token} {w : List Token} {e : Expr} (ht : t.kind = .returnWord)
    (hd : Derives (.expr 0) w e) (he : Complete (.expr 0) w e) (hz : z.kind = .semicolon) :
  Complete (.stmt false) (t :: (w ++ [z])) (.ret (some t.pos) e)
  := by
  intro limit rest hlim _ _ _
  simp only [List.length_cons, List.length_append] at hlim
  obtain ⟨limit, rfl⟩ : ∃ n, limit = n + 1 := ⟨limit - 1, by omega⟩
  have hclose : Closes (rest.push z).head.kind := by
    rw [TokenStream.head_push, hz]
    decide
  simp only [TokenStream.prepend_cons, TokenStream.prepend_concat]
  rw [statement, run_bind_of_ok (run_next _), TokenStream.head_push]
  simp only [ht]
  rw [run_bind_of_ok (run_take_push _ _), run_bind_of_ok (he.run_closed hd (by omega) hclose),
    run_bind_of_ok (run_require_push hz _)]
  rfl

/-- A block is read as a statement, up to what may be a semicolon. -/
theorem run_statement_of_block {w : List Token} {b : Stmt} (hd : Derives .block w b)
    (hb : Complete .block w b) {limit : Nat} {s : TokenStream} (hl : 3 * w.length ≤ limit + 1) :
  (statement (limit + 1)).run (s.prepend w)
    = .ok b (if s.head.kind = .semicolon then s.tail else s)
  := by
  have hk : (s.prepend w).head.kind = .lbrace := by
    cases w with
    | nil => apply absurd rfl (hd.ne_nil rfl)
    | cons t w => simpa [Sym.opens] using hd.opens t rfl
  rw [statement, run_bind_of_ok (run_next _)]
  simp only [hk]
  rw [run_bind_of_ok (hb limit s hl), run_bind_of_ok (run_skip _ _)]
  rfl

/-- An expression is read as a statement, up to what may be a semicolon. -/
theorem run_statement_of_expr {t : Token} {w : List Token} {e : Expr} (ht : t.kind ≠ .lbrace)
    (hd : Derives (.expr 0) (t :: w) e) (he : Complete (.expr 0) (t :: w) e) {limit : Nat}
    {s : TokenStream} (hl : 3 * (w.length + 1) ≤ limit) (hs : Closes s.head.kind) :
  (statement (limit + 1)).run (s.prepend (t :: w))
    = .ok (.expr (some t.pos) e) (if s.head.kind = .semicolon then s.tail else s)
  := by
  have ho : opensExpr t.kind = true := hd.opens t rfl
  rw [statement, run_bind_of_ok (run_next _), TokenStream.prepend_cons, TokenStream.head_push]
  split
  case h_4 =>
    rw [← TokenStream.prepend_cons, run_bind_of_ok (he.run_closed hd hl hs),
      run_bind_of_ok (run_skip _ _)]
    rfl
  case h_3 hk => apply absurd hk ht
  all_goals
    rename_i hk
    rw [hk] at ho
    cases ho

theorem complete_block {w : List Token} {b : Stmt} (hd : Derives .block w b)
    (hb : Complete .block w b) :
  Complete (.stmt false) w b
  := by
  intro limit rest hlim hsemi _ _
  obtain ⟨limit, rfl⟩ : ∃ n, limit = n + 1 := ⟨limit - 1, by omega⟩
  rw [run_statement_of_block hd hb (by omega), if_neg hsemi]

theorem complete_blockEnded {z : Token} {w : List Token} {b : Stmt} (hd : Derives .block w b)
    (hb : Complete .block w b) (hz : z.kind = .semicolon) :
  Complete (.stmt false) (w ++ [z]) b
  := by
  intro limit rest hlim _ _ _
  rw [List.length_append] at hlim
  obtain ⟨limit, rfl⟩ : ∃ n, limit = n + 1 := ⟨limit - 1, by omega⟩
  rw [TokenStream.prepend_concat, run_statement_of_block hd hb (by omega), TokenStream.head_push,
    if_pos hz]
  rfl

theorem complete_expr {t : Token} {w : List Token} {e : Expr} (ht : t.kind ≠ .lbrace)
    (hd : Derives (.expr 0) (t :: w) e) (he : Complete (.expr 0) (t :: w) e) :
  Complete (.stmt true) (t :: w) (.expr (some t.pos) e)
  := by
  intro limit rest hlim hsemi helse hgo
  rw [List.length_cons] at hlim
  obtain ⟨limit, rfl⟩ : ∃ n, limit = n + 1 := ⟨limit - 1, by omega⟩
  have hlink : rest.head.kind.link? = none := by
    apply Option.eq_none_iff_forall_ne_some.mpr
    intro link hl
    apply hgo rfl (Kind.goesOn_iff.mpr ⟨link, hl⟩)
  rw [run_statement_of_expr ht hd he (by omega) ⟨hlink, helse⟩, if_neg hsemi]

theorem complete_exprEnded {t z : Token} {w : List Token} {e : Expr} (ht : t.kind ≠ .lbrace)
    (hd : Derives (.expr 0) (t :: w) e) (he : Complete (.expr 0) (t :: w) e)
    (hz : z.kind = .semicolon) :
  Complete (.stmt false) (t :: (w ++ [z])) (.expr (some t.pos) e)
  := by
  intro limit rest hlim _ _ _
  simp only [List.length_cons, List.length_append] at hlim
  obtain ⟨limit, rfl⟩ : ∃ n, limit = n + 1 := ⟨limit - 1, by omega⟩
  have hclose : Closes (rest.push z).head.kind := by
    rw [TokenStream.head_push, hz]
    decide
  rw [← List.cons_append, TokenStream.prepend_concat,
    run_statement_of_expr ht hd he (by omega) hclose, TokenStream.head_push, if_pos hz]
  rfl

theorem complete_braces {t z : Token} {w : List Token} {ss : List Stmt} (ht : t.kind = .lbrace)
    (hw : Complete .stmts w ss) (hz : z.kind = .rbrace) :
  Complete .block (t :: (w ++ [z])) (.block (some t.pos) ss)
  := by
  intro limit rest hlim
  simp only [List.length_cons, List.length_append] at hlim
  obtain ⟨limit, rfl⟩ : ∃ n, limit = n + 1 := ⟨limit - 1, by omega⟩
  have hrun := hw limit .rbrace (rest.push z) _ (by omega) (.inl rfl) hz
    (TokenStream.left_lt_length_bound _)
  rw [TokenStream.prepend_cons, TokenStream.prepend_concat, block,
    run_bind_of_ok (run_require_push ht _), upTo, bind_assoc,
    run_bind_of_ok (EStateM.run_get _), run_bind_of_ok hrun, run_bind_of_ok (run_require_push hz _)]
  rfl

theorem complete_noStmts :
  Complete .stmts [] []
  := by
  intro limit close rest bound _ _ hr hb
  cases bound with
  | nil => cases hb
  | cons _ bound => simp [upToIn, hr]

/-- A statement can neither start with a token that closes a list of statements nor with one that
would be taken for a part of the statement before. -/
theorem opens_stmt {k : Kind} {unended : Bool} (h : (Sym.stmt unended).opens k = true) :
  k ≠ .rbrace ∧ k ≠ .eof ∧ k ≠ .semicolon ∧ k ≠ .elseWord
  := by
  rw [Sym.opens] at h
  revert h
  cases k <;> decide

/-- What follows a statement in a list of statements is another one or the closing token, so it
cannot be taken for a part of the statement. -/
theorem next_of_stmts {v : List Token} {ss : List Stmt} (h : Derives .stmts v ss)
    {rest : TokenStream} (hr : rest.head.kind = .rbrace ∨ rest.head.kind = .eof) :
  (rest.prepend v).head.kind ≠ .semicolon ∧ (rest.prepend v).head.kind ≠ .elseWord
    ∧ (Halts v → ¬ GoesOn (rest.prepend v).head.kind)
  := by
  cases h with
  | noStmts =>
      rw [TokenStream.prepend_nil, Kind.goesOn_iff]
      rcases hr with hr | hr <;> rw [hr] <;> simp [Kind.link?]
  | @moreStmts unended w s v ss hs hv hh =>
      cases w with
      | nil => apply absurd rfl (hs.ne_nil rfl)
      | cons t w =>
          obtain ⟨-, -, h₁, h₂⟩ := opens_stmt (hs.opens t rfl)
          exact ⟨h₁, h₂, fun h => h t rfl⟩

theorem complete_moreStmts {unended : Bool} {w v : List Token} {s : Stmt} {ss : List Stmt}
    (hds : Derives (.stmt unended) w s) (hs : Complete (.stmt unended) w s)
    (hdv : Derives .stmts v ss) (hv : Complete .stmts v ss) (hh : unended = true → Halts v) :
  Complete .stmts (w ++ v) (s :: ss)
  := by
  intro limit close rest bound hlim hclose hr hb
  have hpos := List.length_pos_iff.mpr (hds.ne_nil rfl)
  simp only [List.length_append] at hlim
  simp only [TokenStream.left_prepend, List.length_append] at hb
  cases bound with
  | nil => cases hb
  | cons _ bound =>
      rw [List.length_cons] at hb
      have hfirst : ((rest.prepend v).prepend w).head.kind ≠ close
          ∧ ((rest.prepend v).prepend w).head.kind ≠ .eof := by
        cases w with
        | nil => apply absurd rfl (hds.ne_nil rfl)
        | cons t w =>
            obtain ⟨h₁, h₂, -⟩ := opens_stmt (hds.opens t rfl)
            rcases hclose with rfl | rfl
            · exact ⟨h₁, h₂⟩
            · exact ⟨h₂, h₂⟩
      obtain ⟨h₁, h₂, h₃⟩ := next_of_stmts hdv (hr ▸ hclose)
      have hrun := hs limit (rest.prepend v) (by omega) h₁ h₂ (fun hu => h₃ (hh hu))
      have hrun' := hv limit close rest bound (by omega) hclose hr (by
        rw [TokenStream.left_prepend]
        omega)
      rw [TokenStream.prepend_append, upToIn, run_if_nextIs_of_ne hfirst.1,
        run_if_nextIs_of_ne hfirst.2, run_bind_of_ok hrun, run_bind_of_ok hrun']
      rfl

/-! ### All derivations -/

/-- What is derived from a symbol is read by the readers of the symbol. -/
theorem complete {S : Sym} {w : List Token} {a : S.Tree} (h : Derives S w a) :
  Complete S w a
  := by
  induction h with
  | program | parameter => trivial
  | noStmts => apply complete_noStmts
  | moreStmts hs hv hh ihs ihv => apply complete_moreStmts hs ihs hv ihv hh
  | bind ht hn ha he hz ih => apply complete_bind ht hn ha he ih hz
  | ret ht he hz ih => apply complete_ret ht he ih hz
  | block hb ih => apply complete_block hb ih
  | blockEnded hb hz ih => apply complete_blockEnded hb ih hz
  | expr ht he ih => apply complete_expr ht he ih
  | exprEnded ht he hz ih => apply complete_exprEnded ht he ih hz
  | braces ht hw hz ih => apply complete_braces ht ih hz
  | tighter h ih =>
      intro limit power rest hlim hp hb he
      apply ih limit power rest hlim (Nat.le_succ_of_le hp) (hb.mono (Nat.le_succ _)) he
  | binary hl ht hr ihl ihr => apply complete_binary ihl ht hr ihr
  | call hf ht ha hz ihf iha => apply complete_call ihf ht iha hz
  | index hc ht hi hz ihc ihi => apply complete_index ihc ht hi ihi hz
  | unary ht he ih => apply complete_unary ht he ih
  | int ht hd hm => apply complete_int ht hd hm
  | str ht | trueWord ht | falseWord ht | ident ht =>
      apply complete_atom
      intro limit rest
      rw [operand, run_bind_of_ok (run_next _), TokenStream.head_push]
      simp only [ht]
      rfl
  | group ht he hz ih => apply complete_group ht he ih hz
  | cond he ih => apply complete_cond he ih
  | fn ht hp hw hq hb ihw ihb => apply complete_fn ht hp ihw hq ihb
  | array ht hw hz ih => apply complete_array ht ih hz
  | map ht hw hn hz ih => apply complete_map ht ih hn hz
  | ifThen ht hc hv ihc ihv => apply complete_ifThen ht hc ihc hv ihv
  | ifElse ht hc hv hu hv' ihc ihv ihv' => apply complete_ifElse ht hc ihc hv ihv hu hv' ihv'
  | ifElseIf ht hc hv hu hv' ihc ihv ihv' =>
      apply complete_ifElseIf ht hc ihc hv ihv hu hv' ihv'
  | noItems => apply Items.none
  | lastItem ha ih => apply Items.last ⟨ha, ih⟩
  | moreItems ha ht hv iha ihv => apply Items.more ⟨ha, iha⟩ ht ihv
  | entry ht hc he ih => apply complete_entry ht hc he ih

end ExprScript.Reader
