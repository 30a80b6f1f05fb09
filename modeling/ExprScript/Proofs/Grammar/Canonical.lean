import ExprScript.Proofs.Grammar.Power
import ExprScript.Proofs.Grammar.Text
import ExprScript.Proofs.Tree.Clean
import ExprScript.Proofs.Tree.Shown

/-!
# The grammar of canonical texts

Canonical texts have a grammar of their own.  Every operator and every index stands in
parentheses, and only a call has none, so that an operator in front of a call takes the whole
call.  In this grammar at most one tree can be read off a text, and it is where the text comes
from, grouping and positions aside.  So the canonical text of an expression without conditionals
and functions says all about it but its grouping and positions.
-/

namespace ExprScript.Grammar

/-! ### Reading -/

/-- The items of lists. -/
inductive Item where
  | expr
  | entry

/-- The trees of an item. -/
@[reducible]
def Item.Tree : Item → Type
  | .expr => Expr
  | .entry => String × Expr

/-- The symbols of the grammar of canonical texts. -/
inductive Canon where
  | item (i : Item)
  /-- An expression that is no call. -/
  | operand
  /-- The calls behind an expression. -/
  | calls (callee : Expr)
  /-- A list up to the token that closes it. -/
  | items (i : Item) (close : Kind)
  /-- What follows an item of a list, up to the token that closes it. -/
  | more (i : Item) (close : Kind)

/-- The trees of a symbol. -/
@[reducible]
def Canon.Tree : Canon → Type
  | .item i => i.Tree
  | .operand => Expr
  | .calls _ => Expr
  | .items i _ | .more i _ => List i.Tree

/-- Whether a token of this kind closes a list. -/
def closesList : Kind → Bool
  | .rparen | .rbracket | .rbrace => true
  | _ => false

/-- The grammar of canonical texts: in front of the forms `w` a symbol is read, with a tree, up to
the forms that are left. -/
inductive Reads : (S : Canon) → (w : List (Kind × String)) → S.Tree → List (Kind × String) → Prop
  | expr {w e f r r'} :
    Reads .operand w e r → Reads (.calls e) r f r' → Reads (.item .expr) w f r'
  | entry {key s w e r} :
    Reads (.item .expr) w e r → Reads (.item .entry) ((.string, key) :: (.colon, s) :: w) (key, e) r
  /- Calls -/
  | done {callee r} : (∀ t ∈ r.head?, t.1 ≠ .lparen) → Reads (.calls callee) r callee r
  | call {callee s w args r f r'} :
    Reads (.items .expr .rparen) w args r → Reads (.calls (.call none callee args)) r f r' →
    Reads (.calls callee) ((.lparen, s) :: w) f r'
  /- Lists -/
  | noItems {i close s r} : closesList close = true → Reads (.items i close) ((close, s) :: r) [] r
  | items {i close w a r as r'} :
    Reads (.item i) w a r → Reads (.more i close) r as r' → Reads (.items i close) w (a :: as) r'
  | noMore {i close s r} : closesList close = true → Reads (.more i close) ((close, s) :: r) [] r
  | more {i close s w a r as r'} :
    Reads (.item i) w a r → Reads (.more i close) r as r' →
    Reads (.more i close) ((.comma, s) :: w) (a :: as) r'
  /- Operands -/
  | ident {name r} : Reads .operand ((.ident, name) :: r) (.ident none name) r
  | int {digits r} : Reads .operand ((.int, digits) :: r) (.int none (Decimal.value digits)) r
  | trueWord {s r} : Reads .operand ((.trueWord, s) :: r) (.bool none true) r
  | falseWord {s r} : Reads .operand ((.falseWord, s) :: r) (.bool none false) r
  | str {s r} : Reads .operand ((.string, s) :: r) (.str none s) r
  | array {s w es r} :
    Reads (.items .expr .rbracket) w es r → Reads .operand ((.lbracket, s) :: w) (.array none es) r
  | map {s w es r} :
    Reads (.items .entry .rbrace) w es r → Reads .operand ((.lbrace, s) :: w) (.map none es) r
  | binary {s s' s'' w e k op layer v f r} :
    Reads (.item .expr) w e ((k, s') :: v) → (k, op) ∈ operators layer →
    Reads (.item .expr) v f ((.rparen, s'') :: r) →
    Reads .operand ((.lparen, s) :: w) (.binary none e op f) r
  | unary {s s' s'' w k op e r} :
    (k, op) ∈ unaryOperators → Reads (.item .expr) w e ((.rparen, s'') :: r) →
    Reads .operand ((.lparen, s) :: (k, s') :: w) (.unary none op e) r
  | index {s s' s'' s''' w c v i r} :
    Reads (.item .expr) w c ((.lbracket, s') :: v) →
    Reads (.item .expr) v i ((.rbracket, s'') :: (.rparen, s''') :: r) →
    Reads .operand ((.lparen, s) :: w) (.index none c i) r

/-! ### At most one tree is read -/

/-- Whether a token of this kind can be the first one of an operand in a canonical text. -/
def opensOperand : Kind → Bool
  | .ident | .int | .trueWord | .falseWord | .string | .lbracket | .lbrace | .lparen => true
  | _ => false

/-- Whether a token of this kind can be the first one of a symbol.  Nothing is said of the symbols
that can be empty. -/
def Canon.opens : Canon → Kind → Bool
  | .item .expr, k | .operand, k => opensOperand k
  | .item .entry, k => k = .string
  | _, _ => true

variable {S : Canon} {w r : List (Kind × String)}

theorem Reads.opens {a : S.Tree} (h : Reads S w a r) :
  ∀ t ∈ w.head?, S.opens t.1 = true
  := by
  induction h with
  | expr _ _ ih => apply ih
  | done | call | noItems | items | noMore | more => exact fun _ _ => rfl
  | _ =>
      intro t ht
      cases ht
      rfl

/-- No item of a list starts with a token that closes the list. -/
theorem Reads.not_closer {i : Item} {k : Kind} {s : String} {a : i.Tree}
    (h : Reads (.item i) ((k, s) :: w) a r) :
  closesList k = false
  := by
  have hopens := h.opens _ rfl
  cases i <;> cases k <;> first | rfl | cases hopens

/-- No expression starts with an operator in front of an operand. -/
theorem Reads.not_unary {k : Kind} {s : String} {e : Expr}
    (h : Reads (.item .expr) ((k, s) :: w) e r) (op : UnaryOp) :
  (k, op) ∉ unaryOperators
  := by
  have hopens := h.opens _ rfl
  intro hop
  simp only [unaryOperators, List.mem_cons, Prod.mk.injEq, List.not_mem_nil, or_false] at hop
  rcases hop with ⟨rfl, -⟩ | ⟨rfl, -⟩ <;> cases hopens

/-- A token is the operator of one binary operation only. -/
theorem operator_unique {k : Kind} {op op' : BinaryOp} {layer layer' : Nat}
    (h : (k, op) ∈ operators layer) (h' : (k, op') ∈ operators layer') :
  op = op'
  := by
  obtain ⟨left, right, hlink, -⟩ := Kind.link?_of_mem_operators h
  obtain ⟨left', right', hlink', -⟩ := Kind.link?_of_mem_operators h'
  rw [hlink] at hlink'
  cases hlink'
  rfl

theorem unary_unique {k : Kind} {op op' : UnaryOp} (h : (k, op) ∈ unaryOperators)
    (h' : (k, op') ∈ unaryOperators) :
  op = op'
  := by
  rw [← Kind.unary?_eq_some] at h h'
  rw [h] at h'
  cases h'
  rfl

/-- At most one tree is read, and it is read up to one place. -/
theorem Reads.unique {r' : List (Kind × String)} {a b : S.Tree}
    (h : Reads S w a r) (h' : Reads S w b r') :
  a = b ∧ r = r'
  := by
  induction h generalizing r' with
  | expr hop hcalls ihop ihcalls =>
      cases h' with
      | expr hop' hcalls' =>
          obtain ⟨rfl, rfl⟩ := ihop hop'
          apply ihcalls hcalls'
  | entry he ih =>
      cases h' with
      | entry he' =>
          obtain ⟨rfl, rfl⟩ := ih he'
          exact ⟨rfl, rfl⟩
  | done hr =>
      -- Only a parenthesis makes another call, so the calls end at one place.
      cases h' with
      | done => exact ⟨rfl, rfl⟩
      | call => apply absurd rfl (hr _ rfl)
  | call hargs hcalls ihargs ihcalls =>
      cases h' with
      | done hr => apply absurd rfl (hr _ rfl)
      | call hargs' hcalls' =>
          obtain ⟨rfl, rfl⟩ := ihargs hargs'
          apply ihcalls hcalls'
  | noItems hclose =>
      cases h' with
      | noItems => exact ⟨rfl, rfl⟩
      | items ha =>
          rw [ha.not_closer] at hclose
          cases hclose
  | items ha has iha ihas =>
      cases h' with
      | noItems hclose =>
          rw [ha.not_closer] at hclose
          cases hclose
      | items ha' has' =>
          obtain ⟨rfl, rfl⟩ := iha ha'
          obtain ⟨rfl, rfl⟩ := ihas has'
          exact ⟨rfl, rfl⟩
  | noMore hclose =>
      cases h' with
      | noMore => exact ⟨rfl, rfl⟩
      | more => cases hclose
  | more ha has iha ihas =>
      cases h' with
      | noMore hclose => cases hclose
      | more ha' has' =>
          obtain ⟨rfl, rfl⟩ := iha ha'
          obtain ⟨rfl, rfl⟩ := ihas has'
          exact ⟨rfl, rfl⟩
  | ident | int | trueWord | falseWord | str =>
      cases h'
      exact ⟨rfl, rfl⟩
  | array hes ih =>
      cases h' with
      | array hes' =>
          obtain ⟨rfl, rfl⟩ := ih hes'
          exact ⟨rfl, rfl⟩
  | map hes ih =>
      cases h' with
      | map hes' =>
          obtain ⟨rfl, rfl⟩ := ih hes'
          exact ⟨rfl, rfl⟩
  | binary he hop hf ihe ihf =>
      cases h' with
      | binary he' hop' hf' =>
          obtain ⟨rfl, hr⟩ := ihe he'
          cases hr
          obtain rfl := operator_unique hop hop'
          obtain ⟨rfl, hr⟩ := ihf hf'
          cases hr
          exact ⟨rfl, rfl⟩
      | unary hop' => apply absurd hop' (he.not_unary _)
      | index hc' =>
          -- The first operand ends at one place, where an operator or a bracket stands.
          obtain ⟨-, hr⟩ := ihe hc'
          cases hr
          obtain ⟨_, _, hlink, -⟩ := Kind.link?_of_mem_operators hop
          cases hlink
  | unary hop he ih =>
      cases h' with
      | binary he' => apply absurd hop (he'.not_unary _)
      | unary hop' he' =>
          obtain rfl := unary_unique hop hop'
          obtain ⟨rfl, hr⟩ := ih he'
          cases hr
          exact ⟨rfl, rfl⟩
      | index hc' => apply absurd hop (hc'.not_unary _)
  | index hc hi ihc ihi =>
      cases h' with
      | binary he' hop' =>
          obtain ⟨-, hr⟩ := ihc he'
          cases hr
          obtain ⟨_, _, hlink, -⟩ := Kind.link?_of_mem_operators hop'
          cases hlink
      | unary hop' => apply absurd hop' (hc.not_unary _)
      | index hc' hi' =>
          obtain ⟨rfl, hr⟩ := ihc hc'
          cases hr
          obtain ⟨rfl, hr⟩ := ihi hi'
          cases hr
          exact ⟨rfl, rfl⟩

/-! ### What is read off the text of an expression -/

end ExprScript.Grammar

namespace ExprScript

open Grammar

/-- The expression without positions and without grouping. -/
abbrev Expr.bones (e : Expr) : Expr := e.recast (fun _ => none) false

/-- Expressions without conditionals and functions, whose names, numbers and operators can be
written. -/
inductive Expr.Simple : Expr → Prop
  | ident {p name} : IsIdent name → Simple (.ident p name)
  | int {p n} : 0 ≤ n → Simple (.int p n)
  | bool {p b} : Simple (.bool p b)
  | str {p s} : Simple (.str p s)
  | array {p es} : (∀ e ∈ es, Simple e) → Simple (.array p es)
  | map {p entries} : (∀ x ∈ entries, Simple x.2) → Simple (.map p entries)
  | binary {p l op r kind layer} :
    Simple l → (kind, op) ∈ operators layer → Simple r → Simple (.binary p l op r)
  | unary {p op e kind} : (kind, op) ∈ unaryOperators → Simple e → Simple (.unary p op e)
  | index {p c i} : Simple c → Simple i → Simple (.index p c i)
  | group {p e} : Simple e → Simple (.group p e)
  | call {p f args} : Simple f → (∀ e ∈ args, Simple e) → Simple (.call p f args)

end ExprScript

namespace ExprScript.Grammar

attribute [local simp] Expr.text

/-- What is in front of the text does not go on with it: neither with a word nor with a call. -/
structure Ends (text : List Char) : Prop where
  apart : Apart text
  no_call : ∀ t ∈ (forms text).head?, t.1 ≠ .lparen

/-- What is read off the text of an expression, in front of any other text, is the expression and
the calls that follow. -/
def Shows (e : Expr) : Prop :=
  ∀ rest, Apart rest → ∀ (f : Expr) r, Reads (.calls e.bones) (forms rest) f r →
    Reads (.item .expr) (forms (e.text.toList ++ rest)) f r

/-- The text of an item. -/
def Item.text : (i : Item) → i.Tree → String
  | .expr, e => e.text
  | .entry, p => Sym.entry.text p

@[simp]
theorem Item.text_expr :
  Item.expr.text = Expr.text
  := rfl

@[simp]
theorem Item.text_entry :
  Item.entry.text = Sym.entry.text
  := rfl

/-- An item without positions and without grouping. -/
def Item.bones : (i : Item) → i.Tree → i.Tree
  | .expr, e => e.bones
  | .entry, p => (p.1, p.2.bones)

theorem ends_of_forms {text : List Char} {k : Kind} {s : String} {r : List (Kind × String)}
    (ha : Apart text) (h : forms text = (k, s) :: r) (hk : k ≠ .lparen) :
  Ends text
  := by
  refine ⟨ha, ?_⟩
  rw [h]
  intro t ht
  cases ht
  apply hk

theorem ends_solid {c : Char} {k : Kind} (rest : List Char) (hc : isWordChar c = false)
    (h : solidMark? c = some k) (hk : k ≠ .lparen) :
  Ends (c :: rest)
  := ends_of_forms (apart_cons rest hc) (forms_solid rest h) hk

/-- What is read off the text of an item, in front of a text that does not go on with it, is the
item. -/
def ShowsItem (i : Item) (a : i.Tree) : Prop :=
  ∀ rest, Ends rest → Reads (.item i) (forms ((i.text a).toList ++ rest)) (i.bones a) (forms rest)

/-- An expression that is no call. -/
theorem shows_operand {e : Expr}
    (h : ∀ rest, Apart rest → Reads .operand (forms (e.text.toList ++ rest)) e.bones (forms rest)) :
  Shows e
  := by
  intro rest hrest f r hcalls
  exact .expr (h rest hrest) hcalls

theorem Shows.item {e : Expr} (h : Shows e) :
  ShowsItem .expr e
  := by
  intro rest hrest
  apply h rest hrest.apart
  exact .done hrest.no_call

theorem Shows.entry {e : Expr} (h : Shows e) (key : String) :
  ShowsItem .entry (key, e)
  := by
  intro rest hrest
  have htext : (Item.entry.text (key, e)).toList ++ rest
      = (Escape.quote key).toList ++ ':' :: ' ' :: (e.text.toList ++ rest) := by
    simp
  rw [htext, forms_quote, forms_solid _ rfl, forms_space]
  exact .entry (h.item rest hrest)

section

variable {i : Item} {c : Char} {close : Kind} {rest : List Char}

/-- The items of a list are read up to the mark that closes it. -/
theorem reads_more {a : i.Tree} {as : List i.Tree} (h : ∀ b ∈ a :: as, ShowsItem i b)
    (hc : isWordChar c = false) (hsolid : solidMark? c = some close)
    (hclose : closesList close = true) :
  ∃ r, Reads (.item i) (forms ((", ".intercalate ((a :: as).map i.text)).toList ++ c :: rest))
      (i.bones a) r
    ∧ Reads (.more i close) r (as.map i.bones) (forms rest)
  := by
  induction as generalizing a with
  | nil =>
      refine ⟨forms (c :: rest), ?_, ?_⟩
      · have hends : Ends (c :: rest) := by
          apply ends_solid rest hc hsolid
          rintro rfl
          cases hclose
        have hread := h a List.mem_cons_self _ hends
        simpa using hread
      · rw [forms_solid rest hsolid]
        exact .noMore hclose
  | cons b as ih =>
      obtain ⟨r, hb, has⟩ := ih fun b hb => h b (List.mem_cons_of_mem a hb)
      have htext : (", ".intercalate ((a :: b :: as).map i.text)).toList ++ c :: rest
          = (i.text a).toList ++ ',' :: ' '
              :: ((", ".intercalate ((b :: as).map i.text)).toList ++ c :: rest) := by
        simp
      refine ⟨forms (',' :: ' ' :: ((", ".intercalate ((b :: as).map i.text)).toList
        ++ c :: rest)), ?_, ?_⟩
      · rw [htext]
        apply h a List.mem_cons_self
        apply ends_solid _ rfl rfl (by decide)
      · rw [forms_solid _ rfl, forms_space]
        exact .more hb has

theorem reads_items {as : List i.Tree} (h : ∀ a ∈ as, ShowsItem i a)
    (hc : isWordChar c = false) (hsolid : solidMark? c = some close)
    (hclose : closesList close = true) :
  Reads (.items i close) (forms ((", ".intercalate (as.map i.text)).toList ++ c :: rest))
    (as.map i.bones) (forms rest)
  := by
  cases as with
  | nil =>
      have hread : Reads (.items i close) (forms (c :: rest)) [] (forms rest) := by
        rw [forms_solid rest hsolid]
        exact .noItems hclose
      simpa using hread
  | cons a as =>
      obtain ⟨r, ha, has⟩ := reads_more h hc hsolid hclose
      exact .items ha has

end

theorem shows_ident {p : Option Pos} {name : String} (h : IsIdent name) :
  Shows (.ident p name)
  := by
  apply shows_operand
  intro rest hrest
  rw [show (Expr.ident p name).text = name from rfl, forms_word h.1 hrest, String.ofList_toList,
    h.2]
  exact .ident

theorem shows_int {p : Option Pos} {n : Int} (h : 0 ≤ n) :
  Shows (.int p n)
  := by
  obtain ⟨n, rfl⟩ := Int.eq_ofNat_of_zero_le h
  apply shows_operand
  intro rest hrest
  have hread : Reads .operand ((.int, Decimal.ofNat n) :: forms rest)
      (.int none (Decimal.value (Decimal.ofNat n))) (forms rest) := .int
  rw [Decimal.value_ofNat] at hread
  rw [show (Expr.int p n).text = Decimal.ofNat n from rfl, forms_ofNat n hrest]
  apply hread

theorem shows_bool {p : Option Pos} {b : Bool} :
  Shows (.bool p b)
  := by
  apply shows_operand
  intro rest hrest
  cases b with
  | true =>
      have htext : (Expr.bool p true).text.toList = ['t', 'r', 'u', 'e'] := by simp
      rw [htext, forms_keyword ['t', 'r', 'u', 'e'] rfl rfl hrest]
      exact .trueWord
  | false =>
      have htext : (Expr.bool p false).text.toList = ['f', 'a', 'l', 's', 'e'] := by simp
      rw [htext, forms_keyword ['f', 'a', 'l', 's', 'e'] rfl rfl hrest]
      exact .falseWord

theorem shows_str {p : Option Pos} {s : String} :
  Shows (.str p s)
  := by
  apply shows_operand
  intro rest _
  rw [show (Expr.str p s).text = Escape.quote s from rfl, forms_quote]
  exact .str

theorem shows_array {p : Option Pos} {es : List Expr} (h : ∀ e ∈ es, Shows e) :
  Shows (.array p es)
  := by
  apply shows_operand
  intro rest _
  have htext : (Expr.array p es).text.toList ++ rest
      = '[' :: ((", ".intercalate (es.map Item.expr.text)).toList ++ ']' :: rest) := by
    simp [texts_eq_map]
  rw [htext, forms_solid _ rfl, Expr.bones, Expr.recast, Expr.recastAll_eq_map]
  exact .array (reads_items (fun e he => (h e he).item) rfl rfl rfl)

theorem shows_map {p : Option Pos} {entries : List (String × Expr)}
    (h : ∀ x ∈ entries, Shows x.2) :
  Shows (.map p entries)
  := by
  apply shows_operand
  intro rest _
  have htext : (Expr.map p entries).text.toList ++ rest
      = '\x7b' :: ((", ".intercalate (entries.map Item.entry.text)).toList ++ '\x7d' :: rest) := by
    simp [entryTexts_eq_map]
  rw [htext, forms_solid _ rfl, Expr.bones, Expr.recast, Expr.recastEntries_eq_map]
  exact .map (reads_items (fun x hx => (h x hx).entry x.1) rfl rfl rfl)

/-- No binary operator opens or extends anything. -/
theorem not_bracket_of_operator {k : Kind} {op : BinaryOp} {layer : Nat}
    (h : (k, op) ∈ operators layer) :
  k ≠ .lparen ∧ k ≠ .lbracket
  := by
  obtain ⟨_, _, hlink, -⟩ := Kind.link?_of_mem_operators h
  constructor
  · rintro rfl
    cases hlink
  · rintro rfl
    cases hlink

theorem shows_binary {p : Option Pos} {l r : Expr} {k : Kind} {op : BinaryOp} {layer : Nat}
    (hl : Shows l) (hop : (k, op) ∈ operators layer) (hr : Shows r) :
  Shows (.binary p l op r)
  := by
  apply shows_operand
  intro rest _
  have htext : (Expr.binary p l op r).text.toList ++ rest
      = '(' :: (l.text.toList
          ++ ' ' :: (op.symbol.toList ++ ' ' :: (r.text.toList ++ ')' :: rest))) := by
    simp
  have hforms : forms (' ' :: (op.symbol.toList ++ ' ' :: (r.text.toList ++ ')' :: rest)))
      = (k, op.symbol) :: forms (r.text.toList ++ ')' :: rest) := by
    rw [forms_space, forms_operator hop]
  have hleft := hl.item _ (ends_of_forms (apart_cons _ rfl) hforms (not_bracket_of_operator hop).1)
  have hright := hr.item (')' :: rest) (ends_solid rest rfl rfl (by decide))
  rw [forms_solid rest rfl] at hright
  rw [htext, forms_solid _ rfl]
  rw [hforms] at hleft
  exact .binary hleft hop hright

theorem shows_unary {p : Option Pos} {e : Expr} {k : Kind} {op : UnaryOp}
    (hop : (k, op) ∈ unaryOperators) (he : Shows e)
    (hfirst : ∃ c cs, e.text.toList = c :: cs ∧ c ≠ '=') :
  Shows (.unary p op e)
  := by
  apply shows_operand
  intro rest _
  have htext : (Expr.unary p op e).text.toList ++ rest
      = '(' :: (op.symbol.toList ++ (e.text.toList ++ ')' :: rest)) := by
    simp
  have hread := he.item (')' :: rest) (ends_solid rest rfl rfl (by decide))
  rw [forms_solid rest rfl] at hread
  obtain ⟨c, cs, hcs, hc⟩ := hfirst
  rw [htext, forms_solid _ rfl, hcs, List.cons_append, forms_unary hop hc, ← List.cons_append,
    ← hcs]
  exact .unary hop hread

theorem shows_index {p : Option Pos} {c i : Expr} (hc : Shows c) (hi : Shows i) :
  Shows (.index p c i)
  := by
  apply shows_operand
  intro rest _
  have htext : (Expr.index p c i).text.toList ++ rest
      = '(' :: (c.text.toList ++ '[' :: (i.text.toList ++ ']' :: ')' :: rest)) := by
    simp
  have hcollection := hc.item _ (ends_solid (i.text.toList ++ ']' :: ')' :: rest) rfl
    (c := '[') rfl (by decide))
  have hposition := hi.item (']' :: ')' :: rest) (ends_solid _ rfl rfl (by decide))
  rw [forms_solid _ rfl, forms_solid _ rfl] at hposition
  rw [forms_solid _ rfl] at hcollection
  rw [htext, forms_solid _ rfl]
  exact .index hcollection hposition

theorem shows_call {p : Option Pos} {f : Expr} {args : List Expr} (hf : Shows f)
    (hargs : ∀ e ∈ args, Shows e) :
  Shows (.call p f args)
  := by
  intro rest _ g r hcalls
  have htext : (Expr.call p f args).text.toList ++ rest
      = f.text.toList ++ '(' :: ((", ".intercalate (args.map Item.expr.text)).toList
          ++ ')' :: rest) := by
    simp [texts_eq_map]
  rw [htext]
  have hread : Reads (.items .expr .rparen)
      (forms ((", ".intercalate (args.map Item.expr.text)).toList ++ ')' :: rest))
      (args.map Expr.bones) (forms rest) :=
    reads_items (fun e he => (hargs e he).item) rfl rfl rfl
  have hbones : (Expr.call p f args).bones = .call none f.bones (args.map Expr.bones) := by
    rw [Expr.bones, Expr.recast, Expr.recastAll_eq_map]
  rw [hbones] at hcalls
  apply hf _ (apart_cons _ rfl)
  rw [forms_solid _ rfl]
  exact .call hread hcalls

/-- No text of an expression starts with an equals sign. -/
theorem first_of_simple {e : Expr} (h : e.Simple) :
  ∃ c cs, e.text.toList = c :: cs ∧ c ≠ '='
  := by
  induction h with
  | ident hname => apply first_of_isIdent hname
  | int hn =>
      obtain ⟨n, rfl⟩ := Int.eq_ofNat_of_zero_le hn
      apply first_ofNat n
  | @bool _ b => cases b <;> simp
  | str => exact ⟨'"', _, String.toList_ofList, by decide⟩
  | array | map | binary | unary | index => simp
  | group _ ih => apply ih
  | call _ _ ih =>
      obtain ⟨c, cs, hcs, hc⟩ := ih
      simp [hcs, hc]

/-- The text of an expression without conditionals and functions shows it. -/
theorem shows {e : Expr} (h : e.Simple) :
  Shows e
  := by
  induction h with
  | ident hname => apply shows_ident hname
  | int hn => apply shows_int hn
  | bool => apply shows_bool
  | str => apply shows_str
  | array _ ih => apply shows_array ih
  | map _ ih => apply shows_map ih
  | binary _ hop _ ihl ihr => apply shows_binary ihl hop ihr
  | unary hop he ih => apply shows_unary hop ih (first_of_simple he)
  | index _ _ ihc ihi => apply shows_index ihc ihi
  | group _ ih => apply ih
  | call _ _ ihf iha => apply shows_call ihf iha

end ExprScript.Grammar

namespace ExprScript.Expr

open Grammar

/-! ### Rendering -/

theorem Simple.part {e : Expr} (h : e.Simple) {c : Node} (hc : c ∈ Node.parts (.expr e)) :
  ∃ f, c = .expr f ∧ f.Simple
  := by
  cases h <;> simp [Node.parts, Node.children] at hc <;> grind

/-- An expression without conditionals and functions is rendered if the limit is not smaller than
the expression. -/
theorem Simple.fault?_eq_none {e : Expr} (h : e.Simple) {limit : Nat}
    (hl : sizeOf (Node.expr e) ≤ limit) :
  (Node.expr e).fault? limit = none
  := by
  induction limit generalizing e with
  | zero => simp at hl
  | succ limit ih =>
      have hbare : (Node.expr e).isBare = false := by cases h <;> rfl
      rw [Node.fault?_succ hbare, List.findSome?_eq_none_iff]
      intro c hc
      obtain ⟨f, rfl, hf⟩ := h.part hc
      have hlt := Node.sizeOf_lt_of_part hc
      apply ih hf
      omega

theorem Simple.render_eq {e : Expr} (h : e.Simple) {limit : Nat}
    (hl : sizeOf (Node.expr e) ≤ limit) :
  e.render limit = .ok e.text
  := by
  rw [Expr.render, show e.fault? limit = none from h.fault?_eq_none hl]
  rfl

/-- The canonical text shows the grouping: two expressions without conditionals and functions have
the same text exactly if they are the same, grouping and positions aside. -/
theorem render_eq_iff {e f : Expr} (he : e.Simple) (hf : f.Simple) :
  ∃ n, ∀ limit, n ≤ limit →
    e.render limit = .ok e.text ∧ f.render limit = .ok f.text
      ∧ (e.render limit = f.render limit ↔ e.bones = f.bones)
  := by
  refine ⟨sizeOf (Node.expr e) + sizeOf (Node.expr f), ?_⟩
  intro limit hl
  rw [he.render_eq (by omega), hf.render_eq (by omega)]
  refine ⟨rfl, rfl, ?_⟩
  constructor
  · intro htext
    have hends : Ends [] := ends_of_forms apart_nil forms_nil (by decide)
    have hread := (shows he).item [] hends
    rw [Item.text_expr, Except.ok.inj htext] at hread
    apply (hread.unique ((shows hf).item [] hends)).1
  · intro hbones
    rw [← Expr.text_recast (fun _ => none) false e, ← Expr.text_recast (fun _ => none) false f]
    rw [show e.recast _ _ = _ from hbones]

/-- An operator in front of a call is not shown like a call of what has an operator in front. -/
theorem render_eq_iff_call :
  ∃ n, ∀ limit, n ≤ limit →
    (Expr.unary none .neg (.group none (.call none (.ident none "f") [.int none 1]))).render limit
        = .ok "(-f(1))"
      ∧ (Expr.call none (.group none (.unary none .neg (.ident none "f")))
          [.int none 1]).render limit = .ok "(-f)(1)"
      ∧ ((Expr.unary none .neg (.group none
              (.call none (.ident none "f") [.int none 1]))).render limit
          = (Expr.call none (.group none (.unary none .neg (.ident none "f")))
              [.int none 1]).render limit
        ↔ Expr.unary none .neg (.call none (.ident none "f") [.int none 1])
          = .call none (.unary none .neg (.ident none "f")) [.int none 1])
  := by
  have hident : (Expr.ident none "f").Simple := .ident ⟨by decide, by decide⟩
  have hone : ∀ e ∈ [Expr.int none 1], e.Simple := by
    intro e he
    rw [List.mem_singleton.mp he]
    exact .int (by decide)
  have hneg : (.minus, .neg) ∈ unaryOperators := by decide
  apply render_eq_iff
  · exact .unary hneg (.group (.call hident hone))
  · exact .call (.group (.unary hneg hident)) hone

end ExprScript.Expr
