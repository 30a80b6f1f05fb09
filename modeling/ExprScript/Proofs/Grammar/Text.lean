import ExprScript.Proofs.Grammar.Form
import ExprScript.Proofs.Tree.Legible
import ExprScript.Tree.Text

/-!
# The canonical text and the grammar

The canonical text of a legible tree is spelled by tokens from which the grammar derives the
tree again, grouping and positions aside.  The proof follows the derivation of the tree: the
text of each part is spelled by tokens whatever comes after it, as long as that does not go on
with a word.
-/

namespace ExprScript.Grammar

attribute [local simp] Expr.text Stmt.text Stmt.texts Stmt.elseText Token.form

/-! ### Spelling -/

/-- The text is spelled by the tokens in front of any other text, which must be apart if the
text is `loose`. -/
def Spells (loose : Bool) (text : List Char) (w : List Token) : Prop :=
  ∀ rest, (loose = true → Apart rest) →
    forms (text ++ rest) = w.map Token.form ++ forms rest

/-- A text is spelled in front of anything that does not go on with a word. -/
theorem Spells.before {loose : Bool} {text : List Char} {w : List Token}
    (h : Spells loose text w) {c : Char} (rest : List Char) (hc : isWordChar c = false) :
  forms (text ++ c :: rest) = w.map Token.form ++ forms (c :: rest)
  := by
  apply h
  intro _
  apply apart_cons rest hc

/-- A text that is not loose is spelled in front of anything. -/
theorem Spells.always {text : List Char} {w : List Token} (h : Spells false text w)
    (rest : List Char) :
  forms (text ++ rest) = w.map Token.form ++ forms rest
  := by
  apply h
  intro hf
  cases hf

/-- A token of a kind with a literal. -/
@[simp]
def tokenOf (k : Kind) (literal : String) : Token := ⟨k, literal, Pos.start⟩

/-- Whether a character can be the start of a longer operator or of a comment. -/
def opensLonger (c : Char) : Bool := c = '=' || c = '!' || c = '<' || c = '>' || c = '/'

/-- The kind of a mark that ends where it starts. -/
def solidMark? (c : Char) : Option Kind := if opensLonger c then none else Kind.ofMark? c

/-- A mark that is not the start of anything longer gives the first form, whatever follows. -/
theorem forms_solid {c : Char} {k : Kind} (rest : List Char) (h : solidMark? c = some k) :
  forms (c :: rest) = (k, String.ofList [c]) :: forms rest
  := by
  unfold solidMark? opensLonger at h
  split at h
  · cases h
  · rename_i hc
    simp only [Bool.or_eq_true, decide_eq_true_eq, not_or] at hc
    obtain ⟨⟨⟨⟨h₁, h₂⟩, h₃⟩, h₄⟩, h₅⟩ := hc
    apply forms_mark h
    intro d _
    refine ⟨?_, fun h => absurd h h₅⟩
    unfold Kind.ofPair?
    split
    all_goals first | rfl | contradiction

/-- A keyword in front of a text gives the first form. -/
theorem forms_keyword (word : List Char) {k : Kind} (hw : isWord word = true)
    (hk : Kind.ofWord (String.ofList word) = k) {rest : List Char} (hr : Apart rest) :
  forms (word ++ rest) = (k, String.ofList word) :: forms rest
  := by
  rw [forms_word hw hr, hk]

theorem forms_keyword_space (word : List Char) {k : Kind} (rest : List Char)
    (hw : isWord word = true) (hk : Kind.ofWord (String.ofList word) = k) :
  forms (word ++ ' ' :: rest) = (k, String.ofList word) :: forms rest
  := by
  rw [forms_keyword word hw hk (apart_cons rest rfl), forms_space]

theorem forms_let (rest : List Char) :
  forms ('l' :: 'e' :: 't' :: ' ' :: rest) = (.letWord, "let") :: forms rest
  := by
  apply forms_keyword_space ['l', 'e', 't'] rest rfl rfl

theorem forms_return (rest : List Char) :
  forms ('r' :: 'e' :: 't' :: 'u' :: 'r' :: 'n' :: ' ' :: rest)
    = (.returnWord, "return") :: forms rest
  := by
  apply forms_keyword_space ['r', 'e', 't', 'u', 'r', 'n'] rest rfl rfl

theorem forms_if (rest : List Char) :
  forms ('i' :: 'f' :: ' ' :: rest) = (.ifWord, "if") :: forms rest
  := by
  apply forms_keyword_space ['i', 'f'] rest rfl rfl

theorem forms_else (rest : List Char) :
  forms ('e' :: 'l' :: 's' :: 'e' :: ' ' :: rest) = (.elseWord, "else") :: forms rest
  := by
  apply forms_keyword_space ['e', 'l', 's', 'e'] rest rfl rfl

theorem forms_fn (rest : List Char) :
  forms ('f' :: 'n' :: '(' :: rest) = (.fnWord, "fn") :: (.lparen, "(") :: forms rest
  := by
  have hword : forms (['f', 'n'] ++ '(' :: rest) = (.fnWord, "fn") :: forms ('(' :: rest) := by
    apply forms_keyword _ rfl rfl (apart_cons rest rfl)
  rw [forms_solid rest rfl] at hword
  apply hword

/-- A binary operator in front of a space gives the first form. -/
theorem forms_operator {k : Kind} {op : BinaryOp} {layer : Nat}
    (h : (k, op) ∈ operators layer) (rest : List Char) :
  forms (op.symbol.toList ++ ' ' :: rest) = (k, op.symbol) :: forms rest
  := by
  have hspace : ∀ {c : Char}, Kind.ofPair? c ' ' = none → ∀ d ∈ (' ' :: rest).head?,
      Kind.ofPair? c d = none ∧ (c = '/' → d ≠ '/') := by
    intro c hc d hd
    cases hd
    exact ⟨hc, fun _ => by decide⟩
  have hpair : ∀ {c d : Char} {k : Kind}, Kind.ofPair? c d = some k →
      forms (c :: d :: ' ' :: rest) = (k, String.ofList [c, d]) :: forms rest := by
    intro c d k hk
    rw [forms_pair hk, forms_space]
  have hmark : ∀ {c : Char} {k : Kind}, Kind.ofMark? c = some k → Kind.ofPair? c ' ' = none →
      forms (c :: ' ' :: rest) = (k, String.ofList [c]) :: forms rest := by
    intro c k hk hc
    rw [forms_mark hk (hspace hc), forms_space]
  unfold operators at h
  split at h
  all_goals simp only [List.mem_cons, Prod.mk.injEq, List.not_mem_nil, or_false] at h
  case h_1 | h_2 =>
    obtain ⟨rfl, rfl⟩ := h
    apply hpair rfl
  case h_3 =>
    rcases h with ⟨rfl, rfl⟩ | ⟨rfl, rfl⟩ <;> apply hpair rfl
  case h_4 =>
    rcases h with ⟨rfl, rfl⟩ | ⟨rfl, rfl⟩ | ⟨rfl, rfl⟩ | ⟨rfl, rfl⟩
    · apply hmark rfl rfl
    · apply hmark rfl rfl
    · apply hpair rfl
    · apply hpair rfl
  case h_5 =>
    rcases h with ⟨rfl, rfl⟩ | ⟨rfl, rfl⟩ <;> apply hmark rfl rfl
  case h_6 =>
    rcases h with ⟨rfl, rfl⟩ | ⟨rfl, rfl⟩ | ⟨rfl, rfl⟩ <;> apply hmark rfl rfl

theorem ofPair?_bang {c : Char} (hc : c ≠ '=') :
  Kind.ofPair? '!' c = none
  := by
  unfold Kind.ofPair?
  split <;> simp_all

/-- An operator in front of its operand gives the first form. -/
theorem forms_unary {k : Kind} {op : UnaryOp} (h : (k, op) ∈ unaryOperators) {c : Char}
    (hc : c ≠ '=') (rest : List Char) :
  forms (op.symbol.toList ++ c :: rest) = (k, op.symbol) :: forms (c :: rest)
  := by
  simp only [unaryOperators, List.mem_cons, Prod.mk.injEq, List.not_mem_nil, or_false] at h
  rcases h with ⟨rfl, rfl⟩ | ⟨rfl, rfl⟩
  · apply forms_mark (c := '!') rfl
    intro d hd
    cases hd
    exact ⟨ofPair?_bang hc, fun h => by cases h⟩
  · apply forms_solid (c := '-') _ rfl

theorem forms_assign (rest : List Char) :
  forms ('=' :: ' ' :: rest) = (.assign, "=") :: forms rest
  := by
  have hspace : ∀ d ∈ (' ' :: rest).head?, Kind.ofPair? '=' d = none ∧ ('=' = '/' → d ≠ '/') := by
    intro d hd
    cases hd
    exact ⟨rfl, fun h => by cases h⟩
  rw [forms_mark rfl hspace, forms_space]

/-- An item in front of other items is spelled by its tokens, a comma and theirs. -/
theorem spells_items {α : Type} {text : α → String} {a b : α} {as : List α} {w v : List Token}
    (ha : Spells true (text a).toList w)
    (has : Spells true (", ".intercalate ((b :: as).map text)).toList v) :
  Spells true (", ".intercalate ((a :: b :: as).map text)).toList (w ++ tokenOf .comma "," :: v)
  := by
  intro rest hrest
  have htext : (", ".intercalate ((a :: b :: as).map text)).toList ++ rest
      = (text a).toList ++ ',' :: ' '
          :: ((", ".intercalate ((b :: as).map text)).toList ++ rest) := by
    simp
  rw [htext, ha.before _ rfl, forms_solid _ rfl, forms_space, has rest hrest]
  simp

/-! ### Trees that are derived again -/

/-- The canonical text of the tree of a symbol. -/
@[simp]
def Sym.text : (S : Sym) → S.Tree → String
  | .program, p => p.text
  | .stmts, ss => Stmt.texts ss
  | .stmt _, s => s.text
  | .block, s => s.text
  | .expr _, e => e.text
  | .cond, e => e.text
  | .parameter, n => n
  | .entry, p => Escape.quote p.1 ++ ": " ++ p.2.text
  | .list item, as => ", ".intercalate (as.map item.text)

/-- The tree of a symbol without positions and grouping. -/
abbrev Sym.bones (S : Sym) : S.Tree → S.Tree := S.recast (fun _ => none) false

/-- The text of a tree is spelled by tokens from which the tree is derived again, positions and
grouping aside. -/
def Restores (loose : Bool) (S : Sym) (a : S.Tree) : Prop :=
  ∃ w b, Spells loose (S.text a).toList w ∧ Derives S w b ∧ S.bones b = S.bones a

theorem texts_eq_map (es : List Expr) :
  Expr.texts es = es.map Expr.text
  := by
  induction es with
  | nil => rfl
  | cons e es ih => rw [Expr.texts, ih, List.map_cons]

theorem entryTexts_eq_map (es : List (String × Expr)) :
  Expr.entryTexts es = es.map Sym.entry.text
  := by
  induction es with
  | nil => rfl
  | cons p es ih => rw [Expr.entryTexts, ih, List.map_cons]; rfl

/-- A list is derived again if its items are. -/
theorem restores_list {item : Sym} (as : List item.Tree) (h : ∀ a ∈ as, Restores true item a) :
  Restores true (.list item) as
  := by
  induction as with
  | nil => exact ⟨[], [], fun _ _ => rfl, .noItems, rfl⟩
  | cons a as ih =>
      obtain ⟨w, b, hs, hd, hb⟩ := h a List.mem_cons_self
      cases as with
      | nil =>
          refine ⟨w, [b], ?_, .lastItem hd, congrArg (· :: []) hb⟩
          simpa using hs
      | cons a' as =>
          obtain ⟨v, bs, hss, hds, hbs⟩ := ih fun a ha => h a (List.mem_cons_of_mem _ ha)
          refine ⟨w ++ tokenOf .comma "," :: v, b :: bs, spells_items hs hss,
            .moreItems hd rfl hds, ?_⟩
          simp only [Sym.bones, Sym.recast, List.map_cons] at hb hbs ⊢
          rw [hb, hbs]

/-! ### Expressions -/

/-- The text of an expression is spelled by tokens from which it is derived again. -/
structure Respells (e : Expr) (w : List Token) (f : Expr) : Prop where
  spells : Spells true e.text.toList w
  derives : Derives (.expr (if e.isCall then 6 else 7)) w f
  bones : f.recast (fun _ => none) false = e.recast (fun _ => none) false
  first : ∃ c cs, e.text.toList = c :: cs ∧ c ≠ '='
  brace : e.opensMap = false → ∀ t ∈ w.head?, t.kind ≠ .lbrace

theorem Respells.derives_call {e f : Expr} {w : List Token} (h : Respells e w f) :
  Derives (.expr 6) w f
  := by
  apply h.derives.looser
  split <;> omega

theorem Respells.derives_loosest {e f : Expr} {w : List Token} (h : Respells e w f) :
  Derives (.expr 0) w f
  := by
  apply h.derives.looser (Nat.zero_le _)

theorem Respells.restores {e f : Expr} {w : List Token} (h : Respells e w f) :
  Restores true (.expr 0) e
  := ⟨w, f, h.spells, h.derives_loosest, h.bones⟩

/-- An expression of one token. -/
theorem respells_token {e f : Expr} {t : Token}
    (hs : ∀ rest, Apart rest → forms (e.text.toList ++ rest) = t.form :: forms rest)
    (hd : Derives (.expr 7) [t] f)
    (hb : f.recast (fun _ => none) false = e.recast (fun _ => none) false)
    (hc : e.isCall = false) (hf : ∃ c cs, e.text.toList = c :: cs ∧ c ≠ '=')
    (hk : t.kind ≠ .lbrace) :
  ∃ w f, Respells e w f
  := by
  refine ⟨[t], f, ?_, ?_, hb, hf, ?_⟩
  · intro rest hrest
    apply hs rest (hrest rfl)
  · rw [hc]
    apply hd
  · intro _ u hu
    cases hu
    apply hk

/-- An identifier does not start with an equals sign. -/
theorem first_of_isIdent {name : String} (h : IsIdent name) :
  ∃ c cs, name.toList = c :: cs ∧ c ≠ '='
  := by
  obtain ⟨hw, -⟩ := h
  unfold isWord at hw
  split at hw
  · cases hw
  · rename_i c cs ht
    have hc : isLetter c = true := (Bool.and_eq_true_iff.mp hw).1
    exact ⟨c, cs, ht, (isSpace_of_isWordChar (isWordChar_of_isLetter hc)).2.2⟩

theorem respells_ident {name : String} (h : IsIdent name) (p : Option Pos) :
  ∃ w f, Respells (.ident p name) w f
  := by
  refine respells_token (t := tokenOf .ident name) ?_ (.ident rfl) rfl rfl (first_of_isIdent h)
    (by simp)
  intro rest hrest
  rw [show (Expr.ident p name).text = name from rfl, forms_word h.1 hrest,
    String.ofList_toList, h.2]
  rfl

/-- The numeral of a number that can be written is not too long. -/
theorem length_ofNat_le {n : Nat} (h : n ≤ 2147483647) :
  (Decimal.ofNat n).length ≤ 4300
  := by
  have hdigits : (Nat.toDigits 10 n).length ≤ 10 := by
    rw [Nat.length_toDigits_le_iff (by decide) (by decide)]
    omega
  rw [Decimal.ofNat, String.length_ofList]
  omega

/-- A numeral starts with a digit. -/
theorem toList_ofNat (n : Nat) :
  ∃ c cs, (Decimal.ofNat n).toList = c :: cs ∧ c.isDigit = true ∧ cs.all Char.isDigit = true
  := by
  obtain ⟨c, cs, hcs⟩ := List.exists_cons_of_ne_nil (Nat.toDigits_ne_nil (n := n) (b := 10))
  have hdigits : ∀ d ∈ c :: cs, d.isDigit = true := by
    intro d hd
    rw [← hcs] at hd
    apply Nat.isDigit_of_mem_toDigits (by decide) (by decide) hd
  refine ⟨c, cs, ?_, hdigits c List.mem_cons_self, List.all_eq_true.mpr ?_⟩
  · rw [← hcs]
    apply String.toList_ofList
  · intro d hd
    apply hdigits d (List.mem_cons_of_mem _ hd)

/-- A numeral in front of a text gives the first form. -/
theorem forms_ofNat (n : Nat) {rest : List Char} (hrest : Apart rest) :
  forms ((Decimal.ofNat n).toList ++ rest) = (.int, Decimal.ofNat n) :: forms rest
  := by
  obtain ⟨c, cs, ht, hc, hcs⟩ := toList_ofNat n
  rw [ht, forms_number hc hcs hrest, ← ht, String.ofList_toList]

theorem first_ofNat (n : Nat) :
  ∃ c cs, (Decimal.ofNat n).toList = c :: cs ∧ c ≠ '='
  := by
  obtain ⟨c, cs, ht, hc, -⟩ := toList_ofNat n
  exact ⟨c, cs, ht, (isSpace_of_isWordChar (isWordChar_of_isDigit hc)).2.2⟩

theorem respells_int {n : Nat} (h : n ≤ 2147483647) (p : Option Pos) :
  ∃ w f, Respells (.int p n) w f
  := by
  have hvalue : Decimal.value (Decimal.ofNat n) ≤ 2147483647 := by
    rw [Decimal.value_ofNat]
    apply h
  have hd := Derives.int (t := tokenOf .int (Decimal.ofNat n)) rfl (length_ofNat_le h) hvalue
  refine respells_token ?_ hd ?_ rfl (first_ofNat n) (by simp)
  · intro rest hrest
    apply forms_ofNat n hrest
  · simp

theorem respells_str (s : String) (p : Option Pos) :
  ∃ w f, Respells (.str p s) w f
  := by
  refine respells_token (t := tokenOf .string s) ?_ (.str rfl) rfl rfl ?_ (by simp)
  · intro rest _
    apply forms_quote
  · exact ⟨'"', _, String.toList_ofList, by decide⟩

theorem respells_bool (b : Bool) (p : Option Pos) :
  ∃ w f, Respells (.bool p b) w f
  := by
  cases b with
  | true =>
      have htext : (Expr.bool p true).text.toList = ['t', 'r', 'u', 'e'] := by simp
      refine respells_token (t := tokenOf .trueWord "true") ?_ (.trueWord rfl) rfl rfl
        ⟨_, _, htext, by decide⟩ (by simp)
      · intro rest hrest
        rw [htext]
        apply forms_keyword ['t', 'r', 'u', 'e'] rfl rfl hrest
  | false =>
      have htext : (Expr.bool p false).text.toList = ['f', 'a', 'l', 's', 'e'] := by
        simp
      refine respells_token (t := tokenOf .falseWord "false") ?_ (.falseWord rfl) rfl rfl
        ⟨_, _, htext, by decide⟩ (by simp)
      · intro rest hrest
        rw [htext]
        apply forms_keyword ['f', 'a', 'l', 's', 'e'] rfl rfl hrest

/-- What is spelled in parentheses is derived as a group. -/
theorem respells_parens {e f : Expr} (body : List Char) {w : List Token}
    (ht : e.text.toList = '(' :: (body ++ [')'])) (hs : Spells true body w)
    (hd : Derives (.expr 0) w f)
    (hb : f.recast (fun _ => none) false = e.recast (fun _ => none) false)
    (hc : e.isCall = false) :
  ∃ v f', Respells e v f'
  := by
  refine ⟨tokenOf .lparen "(" :: (w ++ [tokenOf .rparen ")"]), .group (some Pos.start) f, ?_⟩
  constructor
  · intro rest _
    rw [ht, List.cons_append, forms_solid _ rfl, List.append_assoc,
      List.cons_append, List.nil_append, hs.before _ rfl,
      forms_solid _ rfl]
    simp
  · rw [hc]
    apply Derives.group rfl hd rfl
  · apply hb
  · exact ⟨'(', _, ht, by decide⟩
  · intro _ t ht
    cases ht
    decide

/-- Every layer of operators is looser than that of calls. -/
theorem lt_of_mem_operators {k : Kind} {op : BinaryOp} {layer : Nat}
    (h : (k, op) ∈ operators layer) :
  layer < 6
  := by
  unfold operators at h
  split at h
  all_goals first | omega | cases h

theorem respells_binary {l r l' r' : Expr} {u v : List Token} {k : Kind} {op : BinaryOp}
    {layer : Nat} (hop : (k, op) ∈ operators layer) (hl : Respells l u l')
    (hr : Respells r v r') (p : Option Pos) :
  ∃ w f, Respells (.binary p l op r) w f
  := by
  have hlayer := lt_of_mem_operators hop
  have hd : Derives (.expr layer) (u ++ tokenOf k op.symbol :: v) (.binary l'.pos l' op r') := by
    apply Derives.binary (hl.derives_call.looser (by omega)) hop
      (hr.derives_call.looser (by omega))
  apply respells_parens (l.text.toList ++ ' ' :: (op.symbol.toList ++ ' ' :: r.text.toList))
    (by simp) _ (hd.looser (Nat.zero_le _))
  · simp only [Expr.recast, hl.bones, hr.bones]
  · rfl
  · intro rest hrest
    rw [List.append_assoc, List.cons_append, List.append_assoc, List.cons_append,
      hl.spells.before _ rfl, forms_space, forms_operator hop,
      hr.spells _ hrest]
    simp

theorem respells_unary {e f : Expr} {w : List Token} {k : Kind} {op : UnaryOp}
    (hop : (k, op) ∈ unaryOperators) (he : Respells e w f) (hc : e.isCall = false)
    (p : Option Pos) :
  ∃ w f, Respells (.unary p op e) w f
  := by
  have hd := he.derives
  rw [hc] at hd
  apply respells_parens (op.symbol.toList ++ e.text.toList) (by simp) _
    ((Derives.unary (t := tokenOf k op.symbol) hop hd).looser (Nat.zero_le _))
  · simp only [Expr.recast, he.bones]
  · rfl
  · intro rest hrest
    obtain ⟨c, cs, ht, hc⟩ := he.first
    have hspells := he.spells rest hrest
    rw [ht, List.cons_append] at hspells
    rw [ht, List.append_assoc, List.cons_append, forms_unary hop hc, hspells]
    rfl

theorem respells_index {c i c' i' : Expr} {u v : List Token} (hc : Respells c u c')
    (hi : Respells i v i') (p : Option Pos) :
  ∃ w f, Respells (.index p c i) w f
  := by
  have hd : Derives (.expr 6) (u ++ tokenOf .lbracket "[" :: (v ++ [tokenOf .rbracket "]"]))
      (.index c'.pos c' i') := by
    apply Derives.index hc.derives_call rfl hi.derives_loosest rfl
  apply respells_parens (c.text.toList ++ '[' :: (i.text.toList ++ [']']))
    (by simp) _ (hd.looser (Nat.zero_le _))
  · simp only [Expr.recast, hc.bones, hi.bones]
  · rfl
  · intro rest _
    rw [List.append_assoc, List.cons_append, List.append_assoc, List.cons_append,
      List.nil_append, hc.spells.before _ rfl,
      forms_solid _ rfl, hi.spells.before _ rfl,
      forms_solid _ rfl]
    simp

theorem respells_call {f f' : Expr} {args : List Expr} {u : List Token} (hf : Respells f u f')
    (ha : Restores true (.list (.expr 0)) args) (p : Option Pos) :
  ∃ w g, Respells (.call p f args) w g
  := by
  obtain ⟨v, args', hs, hd, hb⟩ := ha
  have hcall := Derives.call (t := tokenOf .lparen "(") (z := tokenOf .rparen ")")
    hf.derives_call rfl hd rfl
  have htext : (Expr.call p f args).text.toList
      = f.text.toList ++ '(' :: (((Sym.list (.expr 0)).text args).toList ++ [')']) := by
    simp [texts_eq_map]
  refine ⟨_, _, ?_, hcall, ?_, ?_, ?_⟩
  · intro rest _
    rw [htext, List.append_assoc, List.cons_append, List.append_assoc, List.cons_append,
      List.nil_append, hf.spells.before _ rfl, forms_solid _ rfl, hs.before _ rfl,
      forms_solid _ rfl]
    simp
  · simp only [Sym.recast] at hb
    simp only [Expr.recast, Expr.recastAll_eq_map, hf.bones, hb]
  · obtain ⟨c, cs, ht, hc⟩ := hf.first
    rw [htext, ht]
    exact ⟨c, _, rfl, hc⟩
  · intro ho t ht
    rw [hf.derives_call.head?_append rfl] at ht
    apply hf.brace ho t ht

theorem respells_array {es : List Expr} (h : Restores true (.list (.expr 0)) es)
    (p : Option Pos) :
  ∃ w f, Respells (.array p es) w f
  := by
  obtain ⟨w, es', hs, hd, hb⟩ := h
  have htext : (Expr.array p es).text.toList
      = '[' :: (((Sym.list (.expr 0)).text es).toList ++ [']']) := by
    simp [texts_eq_map]
  refine ⟨_, _, ?_, .array (t := tokenOf .lbracket "[") (z := tokenOf .rbracket "]") rfl hd rfl,
    ?_, ⟨'[', _, htext, by decide⟩, ?_⟩
  · intro rest _
    rw [htext, List.cons_append, List.append_assoc, List.cons_append, List.nil_append,
      forms_solid _ rfl, hs.before _ rfl, forms_solid _ rfl]
    simp
  · simp only [Sym.recast] at hb
    simp only [Expr.recast, Expr.recastAll_eq_map, hb]
  · intro _ t ht
    cases ht
    decide

theorem respells_map {es : List (String × Expr)} (h : Restores true (.list .entry) es)
    (hn : (es.map Prod.fst).Nodup) (p : Option Pos) :
  ∃ w f, Respells (.map p es) w f
  := by
  obtain ⟨w, es', hs, hd, hb⟩ := h
  have htext : (Expr.map p es).text.toList
      = '\x7b' :: (((Sym.list .entry).text es).toList ++ ['\x7d']) := by
    simp [entryTexts_eq_map]
  have hkeys := keys_eq_of_recast hb
  refine ⟨_, _, ?_, .map (t := tokenOf .lbrace "\x7b") (z := tokenOf .rbrace "\x7d") rfl hd
    (hkeys ▸ hn) rfl, ?_, ⟨'\x7b', _, htext, by decide⟩, ?_⟩
  · intro rest _
    rw [htext, List.cons_append, List.append_assoc, List.cons_append, List.nil_append,
      forms_solid _ rfl, hs.before _ rfl, forms_solid _ rfl]
    simp
  · simp only [Sym.recast] at hb
    simp only [Expr.recast, Expr.recastEntries_eq_map, hb]
  · intro ho
    cases ho

theorem respells_fn {params : List String} {body : Stmt}
    (hp : Restores true (.list .parameter) params) (hb : Restores false .block body)
    (p : Option Pos) :
  ∃ w f, Respells (.fn p params body) w f
  := by
  obtain ⟨u, params', hs, hd, he⟩ := hp
  obtain ⟨v, body', hsb, hdb, heb⟩ := hb
  have htext : (Expr.fn p params body).text.toList
      = 'f' :: 'n' :: '(' :: (((Sym.list .parameter).text params).toList
          ++ ')' :: ' ' :: body.text.toList) := by
    simp
  refine ⟨_, _, ?_, .fn (t := tokenOf .fnWord "fn") (p := tokenOf .lparen "(")
    (q := tokenOf .rparen ")") rfl rfl hd rfl hdb, ?_, ⟨'f', _, htext, by decide⟩, ?_⟩
  · intro rest _
    have hblock : forms (body.text.toList ++ rest) = v.map Token.form ++ forms rest :=
      hsb.always rest
    rw [htext, List.cons_append, List.cons_append, List.cons_append, List.append_assoc,
      List.cons_append, List.cons_append, forms_fn, hs.before _ rfl, forms_solid _ rfl,
      forms_space, hblock]
    simp
  · simp only [Sym.recast, List.map_id_fun', id_eq] at he heb
    simp only [Expr.recast, he, heb]
  · intro _ t ht
    cases ht
    decide

/-! ### Conditionals -/

section

variable {c c' : Expr} {u : List Token} {yes yes' : Stmt} {v : List Token}

/-- The text of a conditional up to the end of its first branch. -/
theorem spells_ifThen (hc : Respells c u c') (hy : Spells false yes.text.toList v) :
  Spells false ('i' :: 'f' :: ' ' :: (c.text.toList ++ ' ' :: yes.text.toList))
    (tokenOf .ifWord "if" :: (u ++ v))
  := by
  intro rest _
  have hblock := hy.always rest
  rw [List.cons_append, List.cons_append, List.cons_append, List.append_assoc, List.cons_append,
    forms_if, hc.spells.before _ rfl, forms_space, hblock]
  simp

theorem restores_ifThen (hc : Respells c u c') (hy : Restores false .block yes)
    (p : Option Pos) :
  Restores false .cond (.cond p c yes none)
  := by
  obtain ⟨v, yes', hs, hd, hb⟩ := hy
  refine ⟨_, _, ?_, .ifThen (t := tokenOf .ifWord "if") rfl hc.derives_loosest hd, ?_⟩
  · have hspells := spells_ifThen hc hs
    simpa using hspells
  · simp only [Sym.recast] at hb
    simp only [Sym.recast, Expr.recast, hc.bones, hb, Stmt.recastElse]

/-- The text of a conditional with a second branch. -/
theorem spells_ifElse {no : List Char} {v' : List Token} (hc : Respells c u c')
    (hy : Spells false yes.text.toList v) (hn : Spells false no v') :
  Spells false ('i' :: 'f' :: ' ' :: (c.text.toList ++ ' ' :: (yes.text.toList
      ++ ' ' :: 'e' :: 'l' :: 's' :: 'e' :: ' ' :: no)))
    (tokenOf .ifWord "if" :: (u ++ (v ++ tokenOf .elseWord "else" :: v')))
  := by
  intro rest _
  have hhead :=
    (spells_ifThen hc hy).always (' ' :: 'e' :: 'l' :: 's' :: 'e' :: ' ' :: (no ++ rest))
  rw [forms_space, forms_else, hn.always rest] at hhead
  simpa [tokenOf, Token.form] using hhead

theorem restores_ifElse {no : Stmt} (hc : Respells c u c') (hy : Restores false .block yes)
    (hn : Restores false .block no) (p : Option Pos) :
  Restores false .cond (.cond p c yes (some no))
  := by
  obtain ⟨v, yes', hs, hd, hb⟩ := hy
  obtain ⟨v', no', hs', hd', hb'⟩ := hn
  refine ⟨_, _, ?_, .ifElse (t := tokenOf .ifWord "if") (u := tokenOf .elseWord "else") rfl
    hc.derives_loosest hd rfl hd', ?_⟩
  · have hspells := spells_ifElse hc hs hs'
    simpa using hspells
  · simp only [Sym.recast] at hb hb'
    simp only [Sym.recast, Expr.recast, hc.bones, hb, Stmt.recastElse, hb']

theorem restores_ifElseIf {e : Expr} (hc : Respells c u c') (hy : Restores false .block yes)
    (he : Restores false .cond e) (p q : Option Pos) :
  Restores false .cond (.cond p c yes (some (.expr q e)))
  := by
  obtain ⟨v, yes', hs, hd, hb⟩ := hy
  obtain ⟨v', e', hs', hd', hb'⟩ := he
  obtain ⟨i, v', rfl⟩ := List.exists_cons_of_ne_nil (hd'.ne_nil rfl)
  refine ⟨_, _, ?_, .ifElseIf (t := tokenOf .ifWord "if") (u := tokenOf .elseWord "else") rfl
    hc.derives_loosest hd rfl hd', ?_⟩
  · have hspells := spells_ifElse hc hs hs'
    simpa using hspells
  · simp only [Sym.recast] at hb hb'
    simp only [Sym.recast, Expr.recast, hc.bones, hb, Stmt.recastElse, Stmt.recast, hb']

end

/-- A conditional that is derived again is an expression that is. -/
theorem respells_cond {e : Expr} {w : List Token} (hd : Derives .cond w e)
    (h : Restores false .cond e) :
  ∃ v f, Respells e v f
  := by
  obtain ⟨v, f, hs, hdf, hb⟩ := h
  have hshape : ∃ p c yes no, e = .cond p c yes no := by
    cases hd with
    | ifThen | ifElse | ifElseIf => exact ⟨_, _, _, _, rfl⟩
  obtain ⟨p, c, yes, no, rfl⟩ := hshape
  refine ⟨v, f, ?_, .cond hdf, hb, ⟨'i', _, by simp; rfl, by decide⟩, ?_⟩
  · intro rest _
    apply hs.always rest
  · intro _ t ht
    have hif : t.kind = .ifWord := by simpa [Sym.opens] using hdf.opens t ht
    rw [hif]
    decide

/-! ### Statements -/

theorem restores_bind {name : String} {e e' : Expr} {w : List Token} (hn : IsIdent name)
    (he : Respells e w e') (p : Option Pos) :
  Restores false (.stmt false) (.bind p name e)
  := by
  refine ⟨_, _, ?_, .bind (t := tokenOf .letWord "let") (n := tokenOf .ident name)
    (a := tokenOf .assign "=") (z := tokenOf .semicolon ";") rfl rfl rfl he.derives_loosest rfl, ?_⟩
  · intro rest _
    have htext : ((Sym.stmt false).text (.bind p name e)).toList ++ rest
        = 'l' :: 'e' :: 't' :: ' ' :: (name.toList ++ ' ' :: '=' :: ' '
            :: (e.text.toList ++ ';' :: rest)) := by
      simp
    rw [htext, forms_let, forms_word hn.1 (apart_cons _ rfl), forms_space, forms_assign,
      he.spells.before _ rfl, forms_solid _ rfl, String.ofList_toList, hn.2]
    simp
  · simp only [Sym.recast, Stmt.recast, he.bones]
    rfl

theorem restores_ret {e e' : Expr} {w : List Token} (he : Respells e w e') (p : Option Pos) :
  Restores false (.stmt false) (.ret p e)
  := by
  refine ⟨_, _, ?_, .ret (t := tokenOf .returnWord "return") (z := tokenOf .semicolon ";") rfl
    he.derives_loosest rfl, ?_⟩
  · intro rest _
    have htext : ((Sym.stmt false).text (.ret p e)).toList ++ rest
        = 'r' :: 'e' :: 't' :: 'u' :: 'r' :: 'n' :: ' ' :: (e.text.toList ++ ';' :: rest) := by
      simp
    rw [htext, forms_return, he.spells.before _ rfl, forms_solid _ rfl]
    simp
  · simp only [Sym.recast, Stmt.recast, he.bones]

/-- An expression that does not start with a map is derived again as a statement. -/
theorem restores_expr {e e' : Expr} {w : List Token} (he : Respells e w e')
    (ho : e.opensMap = false) (p : Option Pos) :
  Restores true (.stmt true) (.expr p e)
  := by
  obtain ⟨t, w, rfl⟩ := List.exists_cons_of_ne_nil (he.derives.ne_nil rfl)
  refine ⟨_, _, he.spells, .expr (he.brace ho t rfl) he.derives_loosest, ?_⟩
  simp only [Sym.recast, Stmt.recast, he.bones]

theorem restores_braces {ss : List Stmt} (h : Restores true .stmts ss) (p : Option Pos) :
  Restores false .block (.block p ss)
  := by
  obtain ⟨w, ts, hs, hd, hb⟩ := h
  refine ⟨_, _, ?_, .braces (t := tokenOf .lbrace "\x7b") (z := tokenOf .rbrace "\x7d") rfl hd
    rfl, ?_⟩
  · intro rest _
    have htext : (Sym.block.text (.block p ss)).toList ++ rest
        = '\x7b' :: ((Sym.stmts.text ss).toList ++ '\x7d' :: rest) := by
      simp
    rw [htext, forms_solid _ rfl, hs.before _ rfl, forms_solid _ rfl]
    simp
  · simp only [Sym.recast] at hb
    simp only [Sym.recast, Stmt.recast, hb]

/-- A statement in front of others is derived again: only an expression is left unended, and
then there are no others. -/
def RestoresStmt (ss : List Stmt) (s : Stmt) : Prop :=
  ∃ unended, (unended = true → ss = []) ∧ Restores unended (.stmt unended) s

theorem restores_moreStmts {s : Stmt} {ss : List Stmt} (h : RestoresStmt ss s)
    (hs : Restores true .stmts ss) :
  Restores true .stmts (s :: ss)
  := by
  obtain ⟨unended, hlast, w, t, hsp, hd, hb⟩ := h
  obtain ⟨v, ts, hsps, hds, hbs⟩ := hs
  have hhalts : unended = true → Halts v := by
    intro hu
    obtain rfl := hlast hu
    have hts : ts = [] := by
      cases ts with
      | nil => rfl
      | cons => cases hbs
    subst hts
    cases hds
    intro t ht
    cases ht
  refine ⟨w ++ v, t :: ts, ?_, .moreStmts hd hds hhalts, ?_⟩
  · intro rest hrest
    have htext : (Sym.stmts.text (s :: ss)).toList ++ rest
        = ((Sym.stmt unended).text s).toList ++ ((Sym.stmts.text ss).toList ++ rest) := by
      simp
    rw [htext, hsp _ _, hsps rest hrest, List.map_append, List.append_assoc]
    intro hu
    obtain rfl := hlast hu
    apply hrest rfl
  · simp only [Sym.recast] at hb hbs
    simp only [Sym.recast, Stmt.recastAll, hb, hbs]

/-! ### All derivations -/

/-- The identifiers among the tokens can be read. -/
def Named (w : List Token) : Prop := ∀ t ∈ w, t.kind = .ident → IsIdent t.literal

@[simp]
theorem named_append {v w : List Token} :
  Named (v ++ w) ↔ Named v ∧ Named w
  := by
  apply List.forall_mem_append

@[simp]
theorem named_cons {t : Token} {w : List Token} :
  Named (t :: w) ↔ (t.kind = .ident → IsIdent t.literal) ∧ Named w
  := by
  apply List.forall_mem_cons

/-- The tree of a symbol is derived again from its text if it is legible. -/
def Rereads : (S : Sym) → S.Tree → Prop
  | .program, _ => True
  | .stmts, ss => Stmt.legibleAll ss = true → Restores true .stmts ss
  | .stmt _, s => s.legible = true → ∀ ss, s.precedes ss = true → RestoresStmt ss s
  | .block, s => s.legible = true → Restores false .block s
  | .expr _, e => e.legible = true → ∃ w f, Respells e w f
  | .cond, e => e.legible = true → Restores false .cond e
  | .parameter, n => Restores true .parameter n
  | .entry, p => p.2.legible = true → Restores true .entry p
  | .list item, as => ∀ a ∈ as, Rereads item a

theorem Rereads.restores_exprs {es : List Expr} (h : Rereads (.list (.expr 0)) es)
    (hl : Expr.legibleAll es = true) :
  Restores true (.list (.expr 0)) es
  := by
  apply restores_list
  induction es with
  | nil => simp
  | cons e es ih =>
      obtain ⟨he, hes⟩ := Bool.and_eq_true_iff.mp hl
      intro a ha
      rcases List.mem_cons.mp ha with rfl | ha
      · obtain ⟨w, f, hr⟩ := h a List.mem_cons_self he
        apply hr.restores
      · apply ih (fun a ha => h a (List.mem_cons_of_mem _ ha)) hes a ha

theorem Rereads.restores_entries {es : List (String × Expr)} (h : Rereads (.list .entry) es)
    (hl : Expr.legibleEntries es = true) :
  Restores true (.list .entry) es
  := by
  apply restores_list
  induction es with
  | nil => simp
  | cons p es ih =>
      obtain ⟨hp, hes⟩ := Bool.and_eq_true_iff.mp hl
      intro a ha
      rcases List.mem_cons.mp ha with rfl | ha
      · apply h a List.mem_cons_self hp
      · apply ih (fun a ha => h a (List.mem_cons_of_mem _ ha)) hes a ha

theorem restores_parameter {name : String} (h : IsIdent name) :
  Restores true .parameter name
  := by
  refine ⟨[tokenOf .ident name], name, ?_, .parameter rfl, rfl⟩
  intro rest hrest
  have hword := forms_word h.1 (hrest rfl)
  rw [String.ofList_toList, h.2] at hword
  apply hword

theorem restores_entry {key : String} {e e' : Expr} {w : List Token} (he : Respells e w e') :
  Restores true .entry (key, e)
  := by
  refine ⟨_, _, ?_, .entry (t := tokenOf .string key) (c := tokenOf .colon ":") rfl rfl
    he.derives_loosest, ?_⟩
  · intro rest hrest
    have htext : (Sym.entry.text (key, e)).toList ++ rest
        = (Escape.quote key).toList ++ ':' :: ' ' :: (e.text.toList ++ rest) := by
      simp
    rw [htext, forms_quote, forms_solid _ rfl, forms_space, he.spells rest hrest]
    rfl
  · simp only [Sym.recast, he.bones]
    rfl

/-- A legible tree that is derived from tokens is derived again from its text. -/
theorem rereads {S : Sym} {w : List Token} {a : S.Tree} (h : Derives S w a) (hw : Named w) :
  Rereads S a
  := by
  induction h with
  | program => trivial
  | noStmts => exact fun _ => ⟨[], [], fun _ _ => rfl, .noStmts, rfl⟩
  | moreStmts _ _ _ ihs ihv =>
      rw [named_append] at hw
      intro hl
      obtain ⟨hs, hss⟩ := Bool.and_eq_true_iff.mp hl
      obtain ⟨hp, hs⟩ := Bool.and_eq_true_iff.mp hs
      apply restores_moreStmts (ihs hw.1 hs _ hp) (ihv hw.2 hss)
  | bind _ hn _ _ _ ih =>
      simp only [named_cons, named_append] at hw
      intro hl ss _
      obtain ⟨w, f, he⟩ := ih hw.2.2.2.1 hl
      exact ⟨false, (by simp), restores_bind (hw.2.1 hn) he _⟩
  | ret _ _ _ ih =>
      simp only [named_cons, named_append] at hw
      intro hl ss _
      obtain ⟨w, f, he⟩ := ih hw.2.1 hl
      exact ⟨false, (by simp), restores_ret he _⟩
  | block _ ih =>
      intro hl ss _
      obtain ⟨w, b, hs, hd, hb⟩ := ih hw hl
      exact ⟨false, (by simp), w, b, hs, .block hd, hb⟩
  | blockEnded _ _ ih =>
      rw [named_append] at hw
      intro hl ss _
      obtain ⟨w, b, hs, hd, hb⟩ := ih hw.1 hl
      exact ⟨false, (by simp), w, b, hs, .block hd, hb⟩
  | expr _ _ ih =>
      intro hl ss hp
      obtain ⟨hss, ho⟩ := Bool.and_eq_true_iff.mp hp
      obtain ⟨w, f, he⟩ := ih hw hl
      exact ⟨true, fun _ => List.isEmpty_iff.mp hss, restores_expr he (by simpa using ho) _⟩
  | exprEnded _ _ _ ih =>
      rw [← List.cons_append, named_append] at hw
      intro hl ss hp
      obtain ⟨hss, ho⟩ := Bool.and_eq_true_iff.mp hp
      obtain ⟨w, f, he⟩ := ih hw.1 hl
      exact ⟨true, fun _ => List.isEmpty_iff.mp hss, restores_expr he (by simpa using ho) _⟩
  | braces _ _ _ ih =>
      simp only [named_cons, named_append] at hw
      intro hl
      apply restores_braces (ih hw.2.1 hl)
  | tighter _ ih => apply ih hw
  | binary _ hop _ ihl ihr =>
      simp only [named_cons, named_append] at hw
      intro hl
      obtain ⟨hll, hlr⟩ := Bool.and_eq_true_iff.mp hl
      obtain ⟨u, l', hl'⟩ := ihl hw.1 hll
      obtain ⟨v, r', hr'⟩ := ihr hw.2.2 hlr
      apply respells_binary hop hl' hr'
  | call _ _ _ _ ihf iha =>
      simp only [named_cons, named_append] at hw
      intro hl
      obtain ⟨hlf, hla⟩ := Bool.and_eq_true_iff.mp hl
      obtain ⟨u, f', hf'⟩ := ihf hw.1 hlf
      apply respells_call hf' (Rereads.restores_exprs (iha hw.2.2.1) hla)
  | index _ _ _ _ ihc ihi =>
      simp only [named_cons, named_append] at hw
      intro hl
      obtain ⟨hlc, hli⟩ := Bool.and_eq_true_iff.mp hl
      obtain ⟨u, c', hc'⟩ := ihc hw.1 hlc
      obtain ⟨v, i', hi'⟩ := ihi hw.2.2.1 hli
      apply respells_index hc' hi'
  | unary hop _ ih =>
      rw [named_cons] at hw
      intro hl
      obtain ⟨hc, hle⟩ := Bool.and_eq_true_iff.mp hl
      obtain ⟨u, e', he'⟩ := ih hw.2 hle
      apply respells_unary hop he' (by simpa using hc)
  | int _ _ hm => exact fun _ => respells_int hm _
  | str => exact fun _ => respells_str _ _
  | trueWord | falseWord => exact fun _ => respells_bool _ _
  | ident ht => exact fun _ => respells_ident (hw _ List.mem_cons_self ht) _
  | group _ _ _ ih =>
      simp only [named_cons, named_append] at hw
      intro hl
      obtain ⟨w, f, he⟩ := ih hw.2.1 hl
      exact ⟨w, f, he.spells, he.derives, he.bones, he.first, he.brace⟩
  | cond hd ih => exact fun hl => respells_cond hd (ih hw hl)
  | fn _ _ _ _ _ ihw ihb =>
      simp only [named_cons, named_append] at hw
      intro hl
      apply respells_fn (restores_list _ (ihw hw.2.2.1)) (ihb hw.2.2.2.2 hl)
  | array _ _ _ ih =>
      simp only [named_cons, named_append] at hw
      intro hl
      apply respells_array (Rereads.restores_exprs (ih hw.2.1) hl)
  | map _ _ hn _ ih =>
      simp only [named_cons, named_append] at hw
      intro hl
      apply respells_map (Rereads.restores_entries (ih hw.2.1) hl) hn
  | ifThen _ _ _ ihc ihv =>
      simp only [named_cons, named_append] at hw
      intro hl
      obtain ⟨hl, -⟩ := Bool.and_eq_true_iff.mp hl
      obtain ⟨hlc, hly⟩ := Bool.and_eq_true_iff.mp hl
      obtain ⟨u, c', hc'⟩ := ihc hw.2.1 hlc
      apply restores_ifThen hc' (ihv hw.2.2 hly)
  | ifElse _ _ _ _ _ ihc ihv ihn =>
      simp only [named_cons, named_append] at hw
      intro hl
      obtain ⟨hl, hln⟩ := Bool.and_eq_true_iff.mp hl
      obtain ⟨hlc, hly⟩ := Bool.and_eq_true_iff.mp hl
      obtain ⟨u, c', hc'⟩ := ihc hw.2.1 hlc
      apply restores_ifElse hc' (ihv hw.2.2.1 hly) (ihn hw.2.2.2.2 hln)
  | ifElseIf _ _ _ _ _ ihc ihv ihn =>
      simp only [named_cons, named_append] at hw
      intro hl
      obtain ⟨hl, hln⟩ := Bool.and_eq_true_iff.mp hl
      obtain ⟨hlc, hly⟩ := Bool.and_eq_true_iff.mp hl
      obtain ⟨u, c', hc'⟩ := ihc hw.2.1 hlc
      apply restores_ifElseIf hc' (ihv hw.2.2.1 hly) (ihn (named_cons.mpr hw.2.2.2.2) hln)
  | noItems => simp [Rereads]
  | lastItem _ ih =>
      intro a ha
      obtain rfl := List.mem_singleton.mp ha
      apply ih hw
  | moreItems _ _ _ iha ihv =>
      simp only [named_cons, named_append] at hw
      intro a ha
      rcases List.mem_cons.mp ha with rfl | ha
      · apply iha hw.1
      · apply ihv hw.2.2 a ha
  | parameter ht => apply restores_parameter (hw _ List.mem_cons_self ht)
  | entry _ _ _ ih =>
      simp only [named_cons] at hw
      intro hl
      obtain ⟨w, f, he⟩ := ih hw.2.2 hl
      apply restores_entry he

end ExprScript.Grammar
