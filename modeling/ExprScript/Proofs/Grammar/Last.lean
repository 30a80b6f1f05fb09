import ExprScript.Proofs.Grammar.Power

/-!
# The tokens of a derivation

No illegal token is derived from any symbol.  Neither an expression nor a block ends in a
semicolon, so a semicolon at the end of a program ends its last statement.
-/

namespace ExprScript.Grammar

/-- All tokens of a derivation are legal. -/
theorem Derives.legal {S : Sym} {w : List Token} {a : S.Tree} (h : Derives S w a) :
  ∀ t ∈ w, t.kind ≠ .illegal
  := by
  induction h with
  | binary _ hop _ ihl ihr =>
      obtain ⟨_, _, hlink, -⟩ := Kind.link?_of_mem_operators hop
      grind [Kind.link?]
  | unary hop _ ih =>
      simp only [unaryOperators] at hop
      grind
  | _ => grind

/-- Whether a derivation from the symbol never ends in a semicolon. -/
def Sym.holdsTogether : Sym → Bool
  | .block | .expr _ | .cond => true
  | _ => false

/-- What ends in a token of another kind does not end in a semicolon. -/
theorem last_of_token {w : List Token} {z : Token} {k : Kind} (hz : z.kind = k)
    (hk : k ≠ .semicolon) :
  ∀ t ∈ (w ++ [z]).getLast?, t.kind ≠ .semicolon
  := by
  intro t ht
  rw [List.getLast?_concat] at ht
  cases ht
  rw [hz]
  apply hk

/-- What ends in something solid ends in its last token. -/
theorem last_of_derives {S : Sym} {w v : List Token} {a : S.Tree} (h : Derives S v a)
    (hS : S.solid = true) (hv : ∀ t ∈ v.getLast?, t.kind ≠ .semicolon) :
  ∀ t ∈ (w ++ v).getLast?, t.kind ≠ .semicolon
  := by
  rw [List.getLast?_append, List.getLast?_eq_some_getLast (h.ne_nil hS), Option.some_or,
    ← List.getLast?_eq_some_getLast]
  apply hv

/-- Expressions and blocks do not end in a semicolon. -/
theorem Derives.last {S : Sym} {w : List Token} {a : S.Tree} (h : Derives S w a)
    (hS : S.holdsTogether = true) :
  ∀ t ∈ w.getLast?, t.kind ≠ .semicolon
  := by
  induction h with
  | program | noStmts | moreStmts | bind | ret | block | blockEnded | expr | exprEnded | noItems
  | lastItem | moreItems | parameter | entry => cases hS
  | tighter _ ih | cond _ ih => apply ih rfl
  | int ht | str ht | trueWord ht | falseWord ht | ident ht =>
      exact last_of_token (w := []) ht (by decide)
  | @braces t z w _ _ _ hz _ => exact last_of_token (w := t :: w) hz (by decide)
  | @group t z w _ _ _ hz _ => exact last_of_token (w := t :: w) hz (by decide)
  | @array t z w _ _ _ hz _ => exact last_of_token (w := t :: w) hz (by decide)
  | @map t z w _ _ _ _ hz _ => exact last_of_token (w := t :: w) hz (by decide)
  | @call w _ t z v _ _ _ _ hz _ _ =>
      rw [← List.cons_append, ← List.append_assoc]
      apply last_of_token hz (by decide)
  | @index w _ t z v _ _ _ _ hz _ _ =>
      rw [← List.cons_append, ← List.append_assoc]
      apply last_of_token hz (by decide)
  -- The others end in an expression or a block.
  | @binary _ w _ t _ v _ _ _ h _ ih =>
      rw [List.append_cons]
      exact last_of_derives h rfl (ih rfl)
  | @unary t _ _ _ _ h ih => exact last_of_derives (w := [t]) h rfl (ih rfl)
  | @fn t p q w _ v _ _ _ _ _ h _ ih =>
      rw [List.append_cons]
      exact last_of_derives (w := t :: p :: (w ++ [q])) h rfl (ih rfl)
  | @ifThen t w _ v _ _ _ h _ ih => exact last_of_derives (w := t :: w) h rfl (ih rfl)
  | @ifElse t u w _ v _ v' _ _ _ _ _ h _ _ ih =>
      rw [List.append_cons, ← List.append_assoc]
      exact last_of_derives (w := t :: (w ++ (v ++ [u]))) h rfl (ih rfl)
  | @ifElseIf t u i w _ v _ v' _ _ _ _ _ h _ _ ih =>
      rw [List.append_cons, ← List.append_assoc]
      exact last_of_derives (w := t :: (w ++ (v ++ [u]))) h rfl (ih rfl)

end ExprScript.Grammar
