import ExprScript.Proofs.Grammar.Complete

/-!
# Items that cannot be read

Some tokens are refused as an operand whatever comes after them, and then so is every list that
holds them as an item: the items in front are read, and with the broken one the list fails.
-/

namespace ExprScript.Reader

open Stateful Grammar

variable {e : ReadFailure}

/-! ### Operands -/

/-- Reading the tokens as an operand fails, whatever comes after them. -/
structure Refuses (e : ReadFailure) (w : List Token) : Prop where
  opens : ∃ t v, w = t :: v ∧ opensExpr t.kind = true
  run : ∀ limit (rest : TokenStream), 3 * w.length ≤ limit + 1 →
    ∃ s, (operand limit).run (rest.prepend w) = .error e s

/-- So does reading them as an expression. -/
theorem Refuses.run_expression {w : List Token} (h : Refuses e w) {limit : Nat} (power : Nat)
    (rest : TokenStream) (hl : 3 * w.length ≤ limit) :
  ∃ s, (expression limit power).run (rest.prepend w) = .error e s
  := by
  obtain ⟨t, v, rfl, -⟩ := h.opens
  rw [List.length_cons] at hl
  obtain ⟨limit, rfl⟩ : ∃ n, limit = n + 1 := ⟨limit - 1, by omega⟩
  obtain ⟨s, hs⟩ := h.run limit rest (by rw [List.length_cons]; omega)
  refine ⟨s, ?_⟩
  rw [expression]
  apply run_bind_of_error hs

theorem Refuses.opens_head {w : List Token} (h : Refuses e w) (rest : TokenStream) :
  opensExpr (rest.prepend w).head.kind = true
  := by
  obtain ⟨t, v, rfl, ht⟩ := h.opens
  apply ht

/-- A number out of the range is refused behind an operator as well. -/
theorem refuses_range {m t : Token} (hm : m.kind = .minus) (ht : t.kind = .int)
    (hdigits : t.literal.length ≤ maxDigits) (hrange : maxInt < Decimal.value t.literal) :
  Refuses (.refused (.range t.literal (some t.pos))) [m, t]
  := by
  refine ⟨⟨m, [t], rfl, by rw [hm]; rfl⟩, ?_⟩
  intro limit rest hl
  simp only [List.length_cons, List.length_nil] at hl
  obtain ⟨limit, rfl⟩ : ∃ n, limit = n + 3 := ⟨limit - 3, by omega⟩
  have hnumber : (number t).run rest = .error (.refused (.range t.literal (some t.pos))) rest := by
    rw [number, if_neg (by omega), if_pos hrange, run_refuse]
  have hoperand : (operand (limit + 1)).run (rest.push t)
      = .error (.refused (.range t.literal (some t.pos))) rest := by
    rw [operand, run_bind_of_ok (run_next _), TokenStream.head_push]
    simp only [ht]
    rw [run_bind_of_ok (run_take_push _ _)]
    apply run_bind_of_error hnumber
  have hexpression : (expression (limit + 2) unaryPower).run (rest.push t)
      = .error (.refused (.range t.literal (some t.pos))) rest := by
    rw [expression]
    apply run_bind_of_error hoperand
  refine ⟨rest, ?_⟩
  rw [TokenStream.prepend_cons, TokenStream.prepend_cons, TokenStream.prepend_nil, operand,
    run_bind_of_ok (run_next _), TokenStream.head_push]
  simp only [hm, Kind.unary?]
  have hahead : operandAhead.run (rest.push t) = .ok () (rest.push t) := by
    apply run_operandAhead_of_opensExpr
    rw [TokenStream.head_push, ht]
    rfl
  rw [run_bind_of_ok (run_take_push _ _), run_bind_of_ok hahead]
  apply run_bind_of_error hexpression

/-! ### Lists -/

/-- Items with commas in between up to one that is broken, and anything after it. -/
inductive Broken {α : Type} (P B : List Token → α → Prop) : List Token → List α → Prop
  | here {w a v} : B w a → Broken P B (w ++ v) [a]
  | later {w a} {t : Token} {v as} :
    P w a → t.kind = .comma → Broken P B v as → Broken P B (w ++ t :: v) (a :: as)

section Lists

variable {α : Type} {P B : List Token → α → Prop} {Q : List α → Prop} {item : List α → Reader α}
  {close : Kind} {n : Nat}
  (hitem : ∀ ⦃done later w a rest⦄, P w a → w.length ≤ n → Q (done.reverse ++ a :: later) →
    rest.head.kind = .comma ∨ rest.head.kind = close →
    (item done).run (rest.prepend w) = .ok a rest)
  (hopen : ∀ ⦃w a rest⦄, P w a → (TokenStream.prepend w rest).head.kind ≠ close)
  (hbroken : ∀ ⦃done w a rest⦄, B w a → w.length ≤ n → Q (done.reverse ++ [a]) →
    ∃ s, (item done).run (TokenStream.prepend w rest) = .error e s)
  (hopen' : ∀ ⦃w a rest⦄, B w a → (TokenStream.prepend w rest).head.kind ≠ close)

include hitem hopen hbroken hopen'

/-- A list fails with the broken item. -/
theorem listIn_broken {w : List Token} {as : List α} (h : Broken P B w as) {bound : List Token}
    {d : List α} {rest : TokenStream} (hn : w.length ≤ n) (hQ : Q (d.reverse ++ as))
    (hb : (rest.prepend w).left < bound.length) :
  ∃ s, (listIn close item bound d).run (rest.prepend w) = .error e s
  := by
  induction h generalizing bound d with
  | @here w a v hB =>
      cases bound with
      | nil => cases hb
      | cons _ bound =>
          rw [List.length_append] at hn
          have hlength : w.length ≤ n := by omega
          obtain ⟨s, hs⟩ : ∃ s, (item d).run ((rest.prepend v).prepend w) = .error e s :=
            hbroken hB hlength hQ
          refine ⟨s, ?_⟩
          rw [TokenStream.prepend_append, listIn, run_if_nextIs_of_ne (hopen' hB)]
          apply run_bind_of_error hs
  | @later w a t v as hP ht hv ih =>
      cases bound with
      | nil => cases hb
      | cons _ bound =>
          simp only [List.length_append, List.length_cons] at hn
          simp only [TokenStream.left_prepend, List.length_append, List.length_cons] at hb
          have hnext : ((rest.prepend v).push t).head.kind = .comma := ht
          rw [TokenStream.prepend_append, TokenStream.prepend_cons, listIn,
            run_if_nextIs_of_ne (hopen hP), run_bind_of_ok (hitem hP (by omega) hQ (.inl hnext)),
            run_if_nextIs_of_eq hnext, run_bind_of_ok (run_take_push _ _)]
          apply ih (by omega)
          · simpa using hQ
          · rw [TokenStream.left_prepend]
            omega

theorem list_broken {w : List Token} {as : List α} (h : Broken P B w as) (hn : w.length ≤ n)
    (hQ : Q as) (rest : TokenStream) :
  ∃ s, (list close item).run (rest.prepend w) = .error e s
  := by
  obtain ⟨s, hs⟩ := listIn_broken hitem hopen hbroken hopen' h (d := []) hn hQ
    (rest.prepend w).left_lt_length_bound
  refine ⟨s, ?_⟩
  rw [list, run_get_bind]
  apply run_bind_of_error hs

end Lists

/-- What opens with a token and goes on with a list is refused if the list is. -/
theorem refuses_enclosed {α : Type} {t : Token} {w v : List Token} (body : Nat → Reader α)
    {make : α → Reader Expr} (ho : opensExpr t.kind = true)
    (hrun : ∀ limit rest,
      (operand (limit + 1)).run (rest.push t) = (body limit >>= make).run rest)
    (hbody : ∀ limit rest, 3 * w.length ≤ limit →
      ∃ s, (body limit).run (TokenStream.prepend w rest) = .error e s) :
  Refuses e (t :: (w ++ v))
  := by
  refine ⟨⟨t, w ++ v, rfl, ho⟩, ?_⟩
  intro limit rest hl
  simp only [List.length_cons, List.length_append] at hl
  obtain ⟨limit, rfl⟩ : ∃ n, limit = n + 1 := ⟨limit - 1, by omega⟩
  obtain ⟨s, hs⟩ := hbody limit (rest.prepend v) (by omega)
  refine ⟨s, ?_⟩
  rw [TokenStream.prepend_cons, TokenStream.prepend_append, hrun]
  apply run_bind_of_error hs

/-- An array with a broken element is refused. -/
theorem refuses_array {t : Token} {w v : List Token} {es : List Expr} (ht : t.kind = .lbracket)
    (h : Broken (Derives (.expr 0)) (fun w _ => Refuses e w) w es) :
  Refuses e (t :: (w ++ v))
  := by
  apply refuses_enclosed (fun limit => list .rbracket fun _ => expression limit 0)
  · rw [ht]
    rfl
  · intro limit rest
    rw [operand, run_bind_of_ok (run_next _), TokenStream.head_push]
    simp only [ht]
    rw [run_bind_of_ok (run_take_push _ _)]
  · intro limit rest hl
    apply list_broken (Q := fun _ => True) _ _ _ _ h (Nat.le_refl _) trivial
    · rintro - - u f rest hd hu - hr
      apply (complete hd).run_closed hd (by omega)
      rcases hr with hr | hr <;> rw [hr] <;> decide
    · rintro u f rest hd hk
      have ho := opensExpr_head hd rest
      rw [hk] at ho
      cases ho
    · rintro - u - rest hu hlength -
      apply hu.run_expression 0 rest (by omega)
    · rintro u - rest hu hk
      have ho := hu.opens_head rest
      rw [hk] at ho
      cases ho

/-- An entry whose value is broken. -/
structure RefusesEntry (e : ReadFailure) (w : List Token) (p : String × Expr) : Prop where
  tokens : ∃ t c v, w = t :: c :: v ∧ t.kind = .string ∧ t.literal = p.1 ∧ c.kind = .colon
    ∧ Refuses e v

theorem RefusesEntry.run_entry {w : List Token} {p : String × Expr} (h : RefusesEntry e w p)
    {limit : Nat} {seen : List (String × Expr)} (rest : TokenStream) (hl : 3 * w.length ≤ limit)
    (hseen : p.1 ∉ seen.map Prod.fst) :
  ∃ s, (entry (expression limit) seen).run (rest.prepend w) = .error e s
  := by
  obtain ⟨t, c, v, rfl, ht, hliteral, hc, hv⟩ := h.tokens
  simp only [List.length_cons] at hl
  have hlength : 3 * v.length ≤ limit := by omega
  obtain ⟨s, hs⟩ := hv.run_expression 0 rest hlength
  refine ⟨s, ?_⟩
  rw [TokenStream.prepend_cons, TokenStream.prepend_cons, entry, run_bind_of_ok (run_next _),
    TokenStream.head_push, if_pos ht, run_bind_of_ok (run_take_push _ _), if_neg,
    run_bind_of_ok (run_require_push hc _)]
  · apply run_bind_of_error hs
  · intro hany
    obtain ⟨q, hq, hk⟩ := List.any_eq_true.mp hany
    apply hseen
    apply List.mem_map.mpr ⟨q, hq, (of_decide_eq_true hk).trans hliteral⟩

/-- A map with a broken entry is refused. -/
theorem refuses_map {t : Token} {w v : List Token} {es : List (String × Expr)}
    (ht : t.kind = .lbrace) (h : Broken (Derives .entry) (RefusesEntry e) w es)
    (hkeys : (es.map Prod.fst).Nodup) :
  Refuses e (t :: (w ++ v))
  := by
  apply refuses_enclosed (fun limit => list .rbrace (entry (expression limit)))
  · rw [ht]
    rfl
  · intro limit rest
    rw [operand, run_bind_of_ok (run_next _), TokenStream.head_push]
    simp only [ht]
    rw [run_bind_of_ok (run_take_push _ _)]
  · intro limit rest hl
    apply list_broken (Q := fun es : List (String × Expr) => (es.map Prod.fst).Nodup) _ _ _ _ h
      (Nat.le_refl _) hkeys
    · rintro done later u p rest hd hu hQ hr
      have hentry : Complete .entry u p := complete hd
      apply hentry _ _ _ (by omega) _ (unseen_of_nodup hQ)
      rcases hr with hr | hr <;> rw [hr] <;> decide
    · rintro u p rest hd hk'
      cases hd with
      | entry hk _ _ => cases hk.symm.trans hk'
    · rintro done u p rest hu hlength hQ
      apply hu.run_entry rest (by omega) (unseen_of_nodup hQ)
    · rintro u p rest hu hk'
      obtain ⟨t, c, v, rfl, hk, -⟩ := hu.tokens
      cases hk.symm.trans hk'

end ExprScript.Reader
