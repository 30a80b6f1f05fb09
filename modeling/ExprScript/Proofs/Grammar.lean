import ExprScript.Token
import ExprScript.Text.Decimal
import ExprScript.Tree

/-!
# The grammar

The grammar derives lists of tokens from symbols, and every derivation has a tree.  Expressions
are layered: the layers 0 to 5 are those of the binary operators, from the loosest to the
tightest, all of them associating to the left; layer 6 adds calls and indexing, and layer 7
holds the operators in front of an operand, and the atoms.  Lists have commas in between and
may have one more at their end.

Two conditions go beyond the rules of a context-free grammar.  A statement that starts with a
brace is a block.  A statement that is an expression without a semicolon is not followed by a
token that could go on with the expression.
-/

namespace ExprScript.Grammar

/-- The symbols of the grammar. -/
inductive Sym where
  | program
  | stmts
  /-- A statement.  The flag tells of an expression without a semicolon. -/
  | stmt (unended : Bool)
  | block
  /-- An expression of some layer. -/
  | expr (layer : Nat)
  /-- A conditional. -/
  | cond
  | parameter
  | entry
  /-- A list with commas in between. -/
  | list (item : Sym)

/-- The trees of a symbol. -/
@[reducible]
def Sym.Tree : Sym → Type
  | .program => Program
  | .stmts => List Stmt
  | .stmt _ => Stmt
  | .block => Stmt
  | .expr _ => Expr
  | .cond => Expr
  | .parameter => String
  | .entry => String × Expr
  | .list item => List item.Tree

/-- The binary operators of a layer. -/
def operators : Nat → List (Kind × BinaryOp)
  | 0 => [(.or, .or)]
  | 1 => [(.and, .and)]
  | 2 => [(.eq, .eq), (.ne, .ne)]
  | 3 => [(.lt, .lt), (.gt, .gt), (.le, .le), (.ge, .ge)]
  | 4 => [(.plus, .add), (.minus, .sub)]
  | 5 => [(.star, .mul), (.slash, .div), (.percent, .rem)]
  | _ => []

/-- The operators in front of an operand. -/
def unaryOperators : List (Kind × UnaryOp) := [(.bang, .not), (.minus, .neg)]

/-- A token of this kind could go on with an expression: it is a binary operator, or it opens
the arguments of a call or an index. -/
def GoesOn (k : Kind) : Prop :=
  k = .lparen ∨ k = .lbracket ∨ ∃ layer op, (k, op) ∈ operators layer

/-- No token at the front of the list could go on with an expression. -/
def Halts (w : List Token) : Prop := ∀ t ∈ w.head?, ¬ GoesOn t.kind

/-- The derivations of the grammar: the tokens `w` are derived from a symbol, with a tree. -/
inductive Derives : (s : Sym) → (w : List Token) → s.Tree → Prop
  | program {w ss} {z : Token} :
    Derives .stmts w ss → z.kind = .eof → Derives .program (w ++ [z]) ⟨ss⟩
  /- Statements -/
  | noStmts : Derives .stmts [] []
  | moreStmts {unended w s v ss} :
    Derives (.stmt unended) w s → Derives .stmts v ss → (unended = true → Halts v) →
    Derives .stmts (w ++ v) (s :: ss)
  | bind {t n a z : Token} {w e} :
    t.kind = .letWord → n.kind = .ident → a.kind = .assign → Derives (.expr 0) w e →
    z.kind = .semicolon →
    Derives (.stmt false) (t :: n :: a :: (w ++ [z])) (.bind (some t.pos) n.literal e)
  | ret {t z : Token} {w e} :
    t.kind = .returnWord → Derives (.expr 0) w e → z.kind = .semicolon →
    Derives (.stmt false) (t :: (w ++ [z])) (.ret (some t.pos) e)
  | block {w b} : Derives .block w b → Derives (.stmt false) w b
  | blockEnded {z : Token} {w b} :
    Derives .block w b → z.kind = .semicolon → Derives (.stmt false) (w ++ [z]) b
  | expr {t : Token} {w e} :
    t.kind ≠ .lbrace → Derives (.expr 0) (t :: w) e →
    Derives (.stmt true) (t :: w) (.expr (some t.pos) e)
  | exprEnded {t z : Token} {w e} :
    t.kind ≠ .lbrace → Derives (.expr 0) (t :: w) e → z.kind = .semicolon →
    Derives (.stmt false) (t :: (w ++ [z])) (.expr (some t.pos) e)
  | braces {t z : Token} {w ss} :
    t.kind = .lbrace → Derives .stmts w ss → z.kind = .rbrace →
    Derives .block (t :: (w ++ [z])) (.block (some t.pos) ss)
  /- Expressions with operators -/
  | tighter {layer w e} : Derives (.expr (layer + 1)) w e → Derives (.expr layer) w e
  | binary {layer w l} {t : Token} {op v r} :
    Derives (.expr layer) w l → (t.kind, op) ∈ operators layer →
    Derives (.expr (layer + 1)) v r →
    Derives (.expr layer) (w ++ t :: v) (.binary l.pos l op r)
  | call {w f} {t z : Token} {v args} :
    Derives (.expr 6) w f → t.kind = .lparen → Derives (.list (.expr 0)) v args →
    z.kind = .rparen → Derives (.expr 6) (w ++ t :: (v ++ [z])) (.call f.pos f args)
  | index {w c} {t z : Token} {v i} :
    Derives (.expr 6) w c → t.kind = .lbracket → Derives (.expr 0) v i → z.kind = .rbracket →
    Derives (.expr 6) (w ++ t :: (v ++ [z])) (.index c.pos c i)
  | unary {t : Token} {op w e} :
    (t.kind, op) ∈ unaryOperators → Derives (.expr 7) w e →
    Derives (.expr 7) (t :: w) (.unary (some t.pos) op e)
  /- Atoms -/
  | int {t : Token} :
    t.kind = .int → t.literal.length ≤ 4300 → Decimal.value t.literal ≤ 2147483647 →
    Derives (.expr 7) [t] (.int (some t.pos) (Decimal.value t.literal))
  | str {t : Token} :
    t.kind = .string → Derives (.expr 7) [t] (.str (some t.pos) t.literal)
  | trueWord {t : Token} :
    t.kind = .trueWord → Derives (.expr 7) [t] (.bool (some t.pos) true)
  | falseWord {t : Token} :
    t.kind = .falseWord → Derives (.expr 7) [t] (.bool (some t.pos) false)
  | ident {t : Token} : t.kind = .ident → Derives (.expr 7) [t] (.ident (some t.pos) t.literal)
  | group {t z : Token} {w e} :
    t.kind = .lparen → Derives (.expr 0) w e → z.kind = .rparen →
    Derives (.expr 7) (t :: (w ++ [z])) (.group (some t.pos) e)
  | cond {w e} : Derives .cond w e → Derives (.expr 7) w e
  | fn {t p q : Token} {w params v body} :
    t.kind = .fnWord → p.kind = .lparen → Derives (.list .parameter) w params →
    q.kind = .rparen → Derives .block v body →
    Derives (.expr 7) (t :: p :: (w ++ q :: v)) (.fn (some t.pos) params body)
  | array {t z : Token} {w es} :
    t.kind = .lbracket → Derives (.list (.expr 0)) w es → z.kind = .rbracket →
    Derives (.expr 7) (t :: (w ++ [z])) (.array (some t.pos) es)
  | map {t z : Token} {w es} :
    t.kind = .lbrace → Derives (.list .entry) w es → (es.map Prod.fst).Nodup →
    z.kind = .rbrace → Derives (.expr 7) (t :: (w ++ [z])) (.map (some t.pos) es)
  /- Conditionals -/
  | ifThen {t : Token} {w c v yes} :
    t.kind = .ifWord → Derives (.expr 0) w c → Derives .block v yes →
    Derives .cond (t :: (w ++ v)) (.cond (some t.pos) c yes none)
  | ifElse {t u : Token} {w c v yes v' no} :
    t.kind = .ifWord → Derives (.expr 0) w c → Derives .block v yes → u.kind = .elseWord →
    Derives .block v' no →
    Derives .cond (t :: (w ++ (v ++ u :: v'))) (.cond (some t.pos) c yes (some no))
  | ifElseIf {t u i : Token} {w c v yes v' no} :
    t.kind = .ifWord → Derives (.expr 0) w c → Derives .block v yes → u.kind = .elseWord →
    Derives .cond (i :: v') no →
    Derives .cond (t :: (w ++ (v ++ u :: i :: v')))
      (.cond (some t.pos) c yes (some (.expr (some i.pos) no)))
  /- Lists and their items -/
  | noItems {item} : Derives (.list item) [] []
  | lastItem {item w a} : Derives item w a → Derives (.list item) w [a]
  | moreItems {item w a} {t : Token} {v as} :
    Derives item w a → t.kind = .comma → Derives (.list item) v as →
    Derives (.list item) (w ++ t :: v) (a :: as)
  | parameter {t : Token} : t.kind = .ident → Derives .parameter [t] t.literal
  | entry {t c : Token} {w e} :
    t.kind = .string → c.kind = .colon → Derives (.expr 0) w e →
    Derives .entry (t :: c :: w) (t.literal, e)

/-! ### Layers -/

/-- An expression of a layer belongs to every looser layer. -/
theorem Derives.looser {m n : Nat} {w : List Token} {e : Expr} (h : Derives (.expr n) w e)
    (hmn : m ≤ n) :
  Derives (.expr m) w e
  := by
  induction hmn with
  | refl => apply h
  | step _ ih =>
      apply ih
      apply h.tighter

/-! ### First tokens -/

/-- Whether a token of this kind can be the first one of an expression. -/
def opensExpr : Kind → Bool
  | .int | .string | .trueWord | .falseWord | .ident => true
  | .lparen | .lbracket | .lbrace | .bang | .minus | .ifWord | .fnWord => true
  | _ => false

/-- Whether a token of this kind can be the first one of a symbol.  Nothing is said of the
symbols that can be empty. -/
def Sym.opens : Sym → Kind → Bool
  | .program, _ | .stmts, _ | .list _, _ => true
  | .stmt _, k => opensExpr k || k = .letWord || k = .returnWord
  | .block, k => k = .lbrace
  | .expr _, k => opensExpr k
  | .cond, k => k = .ifWord
  | .parameter, k => k = .ident
  | .entry, k => k = .string

/-- Whether at least one token is derived from a symbol. -/
def Sym.solid : Sym → Bool
  | .stmts | .list _ => false
  | _ => true

/-- Statements and items of lists are not empty. -/
theorem Derives.ne_nil {S : Sym} {w : List Token} {a : S.Tree} (h : Derives S w a)
    (hS : S.solid = true) :
  w ≠ []
  := by
  induction h with
  | noStmts | moreStmts | noItems | lastItem | moreItems => cases hS
  | block _ ih | tighter _ ih | cond _ ih => apply ih rfl
  | _ => simp

/-- What starts with a derivation starts with its first token. -/
theorem Derives.head?_append {S : Sym} {w : List Token} {a : S.Tree} (h : Derives S w a)
    (hS : S.solid = true) (v : List Token) :
  (w ++ v).head? = w.head?
  := by
  cases w with
  | nil => apply absurd rfl (h.ne_nil hS)
  | cons t w => rfl

/-- Every derivation starts with a token that can be the first one of its symbol. -/
theorem Derives.opens {S : Sym} {w : List Token} {a : S.Tree} (h : Derives S w a) :
  ∀ t ∈ w.head?, S.opens t.kind = true
  := by
  induction h with
  | program | noStmts | moreStmts | noItems | lastItem | moreItems => exact fun _ _ => rfl
  | tighter _ ih => apply ih
  | call h _ _ _ ih _ | index h _ _ _ ih _ | binary h _ _ ih _ =>
      rw [h.head?_append rfl]
      apply ih
  | block _ ih | cond _ ih =>
      intro t ht
      simp_all [Sym.opens, opensExpr]
  | blockEnded h _ ih =>
      rw [h.head?_append rfl]
      intro t ht
      simp_all [Sym.opens, opensExpr]
  | expr _ _ ih | exprEnded _ _ _ ih => simp_all [Sym.opens]
  | unary h _ _ =>
      simp only [unaryOperators, List.mem_cons, Prod.mk.injEq, List.not_mem_nil, or_false] at h
      rcases h with ⟨hk, -⟩ | ⟨hk, -⟩ <;> simp [Sym.opens, opensExpr, hk]
  | _ => simp_all [Sym.opens, opensExpr]

end ExprScript.Grammar
