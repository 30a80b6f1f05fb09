import ExprScript.Proofs.Grammar.Text
import ExprScript.Proofs.Reader.Broken
import ExprScript.Proofs.Session.Frame
import ExprScript.Proofs.Session.Joined
import ExprScript.Proofs.Value.Data

/-!
# Reading data back

Data is shown as a source text for it.  Binding a name to the text of data evaluates to equal data,
with the entries of maps in the same order, unless the least integer of the range occurs in it:
that one is written as a negated number beyond the range, and the source text is refused.
-/

namespace ExprScript

open Stateful Grammar Reader

attribute [local simp] Value.text Token.form

/-! ### Evaluating literals -/

/-- Within a limit that is not too low an expression yields a value up to serial numbers, and uses
up serial numbers only. -/
def Yields (least : Nat) (e : Expr) (v : Value) : Prop :=
  ∀ limit m, least ≤ limit → ∃ w made,
    (Eval.expression limit e).run m = .ok w { m with made := made }
      ∧ w.isReturned = false ∧ v.Alike .unnumbered w

theorem Yields.mono {least least' : Nat} {e : Expr} {v : Value} (h : Yields least e v)
    (hl : least ≤ least') :
  Yields least' e v
  := fun limit m hlimit => h limit m (Nat.le_trans hl hlimit)

/-- A literal yields its value. -/
theorem yields_literal {least : Nat} {e : Expr} {v : Value} (hleast : 0 < least)
    (h : ∀ limit m, (Eval.expression (limit + 1) e).run m = .ok v m)
    (hret : v.isReturned = false) (halike : v.Alike .unnumbered v) :
  Yields least e v
  := by
  intro limit m hl
  obtain ⟨limit, rfl⟩ : ∃ k, limit = k + 1 := ⟨limit - 1, by omega⟩
  exact ⟨v, m.made, h limit m, hret, halike⟩

theorem yields_neg {p q : Option Pos} {n : Nat} (h : n ≤ 2147483647) :
  Yields 2 (.unary p .neg (.int q n)) (.int (-n))
  := by
  intro limit m hl
  obtain ⟨limit, rfl⟩ : ∃ k, limit = k + 2 := ⟨limit - 2, by omega⟩
  have hwrap : Arith.wrap (-n) = -n := by
    unfold Arith.wrap
    omega
  have hint : (Eval.expression (limit + 1) (.int q n)).run m = .ok (.int n) m := rfl
  have hneg : Value.unary .neg (.int n) = .ok (.int (-n)) := by rw [Value.unary, hwrap]
  refine ⟨.int (-n), m.made, ?_, rfl, .int _⟩
  rw [Eval.expression, run_bind_of_ok hint, Eval.proceed, if_neg (by exact Bool.noConfusion), hneg]
  rfl

/-- Expressions are evaluated one after the other. -/
theorem run_gather {least : Nat} {es : List Expr} {vs : List Value}
    (h : List.Forall₂ (Yields least) es vs) {limit : Nat} (hl : least ≤ limit) (m : Machine) :
  ∃ ws made, (Eval.gather (Eval.expression limit) es).run m
      = .ok (.values ws) { m with made := made }
    ∧ List.Forall₂ (Value.Alike .unnumbered) vs ws
  := by
  induction h generalizing m with
  | nil => exact ⟨[], m.made, rfl, .nil⟩
  | @cons e v es vs hv _ ih =>
      obtain ⟨w, made, hw, hret, halike⟩ := hv limit m hl
      obtain ⟨ws, made', hws, halikes⟩ := ih { m with made := made }
      refine ⟨w :: ws, made', ?_, .cons halike halikes⟩
      rw [Eval.gather, run_bind_of_ok hw, if_neg (by rw [hret]; exact Bool.noConfusion),
        run_bind_of_ok hws]
      rfl

theorem yields_array {least : Nat} {p : Option Pos} {i : Serial} {es : List Expr}
    {vs : List Value} (h : List.Forall₂ (Yields least) es vs) :
  Yields (least + 1) (.array p es) (.array i vs)
  := by
  intro limit m hl
  obtain ⟨limit, rfl⟩ : ∃ k, limit = k + 1 := ⟨limit - 1, by omega⟩
  obtain ⟨ws, made, hws, halike⟩ := run_gather h (Nat.le_of_succ_le_succ hl) m
  refine ⟨.array made ws, made + 1, ?_, rfl, Value.alike_array trivial halike⟩
  rw [Eval.expression, Eval.withAll, run_bind_of_ok hws]
  rfl

/-- Entries under the same names. -/
theorem names_eq_of_forall₂ {fs : List (String × Expr)} {es : List (String × Value)}
    (h : List.Forall₂ (fun f p => f.1 = p.1) fs es) :
  fs.map Prod.fst = es.map Prod.fst
  := by
  rw [← List.forall₂_eq_eq_eq, List.forall₂_map_left_iff, List.forall₂_map_right_iff]
  apply h

theorem yields_map {least : Nat} {p : Option Pos} {i : Serial} {fs : List (String × Expr)}
    {es : List (String × Value)}
    (h : List.Forall₂ (fun f x => f.1 = x.1 ∧ Yields least f.2 x.2) fs es) :
  Yields (least + 1) (.map p fs) (.map i es)
  := by
  intro limit m hl
  obtain ⟨limit, rfl⟩ : ∃ k, limit = k + 1 := ⟨limit - 1, by omega⟩
  have hvalues : List.Forall₂ (Yields least) (fs.map Prod.snd) (es.map Prod.snd) := by
    rw [List.forall₂_map_left_iff, List.forall₂_map_right_iff]
    exact h.imp fun _ _ hfx => hfx.2
  have hnames := names_eq_of_forall₂ (h.imp fun _ _ hfx => hfx.1)
  obtain ⟨ws, made, hws, halike⟩ := run_gather hvalues (Nat.le_of_succ_le_succ hl) m
  have hentries : Dict.Alike (Value.Alike .unnumbered) es ((es.map Prod.fst).zip ws) := by
    have hzip := Dict.alike_zip (es.map Prod.fst) halike
    rwa [← @List.zip_of_prod _ _ _ _ es rfl rfl] at hzip
  refine ⟨.map made ((es.map Prod.fst).zip ws), made + 1, ?_, rfl,
    Value.alike_map trivial hentries⟩
  rw [Eval.expression, Eval.withAll, run_bind_of_ok hws, hnames]
  rfl

/-! ### The tokens of a text -/

/-- The text is spelled by tokens, and all tokens of the same forms have a property. -/
def Written (text : List Char) (P : List Token → Prop) : Prop :=
  ∃ w, Spells true text w ∧ ∀ u, u.map Token.form = w.map Token.form → P u

theorem Written.imp {text : List Char} {P Q : List Token → Prop} (h : Written text P)
    (hPQ : ∀ w, P w → Q w) :
  Written text Q
  := by
  obtain ⟨w, hs, hw⟩ := h
  exact ⟨w, hs, fun u hu => hPQ u (hw u hu)⟩

/-- A text of one token. -/
theorem written_token {text : List Char} {k : Kind} {literal : String}
    (h : ∀ rest, Apart rest → forms (text ++ rest) = (k, literal) :: forms rest) :
  Written text fun w => ∃ t, w = [t] ∧ t.kind = k ∧ t.literal = literal
  := by
  refine ⟨[tokenOf k literal], fun rest hrest => h rest (hrest rfl), ?_⟩
  intro u hu
  apply forms_eq_singleton hu

/-- A text between two marks. -/
theorem written_enclosed {body : List Char} {P : List Token → Prop} {c d : Char} {k k' : Kind}
    (h : Written body P) (hc : solidMark? c = some k) (hd : solidMark? d = some k')
    (hword : isWordChar d = false) :
  Written (c :: (body ++ [d])) fun w =>
    ∃ t v z, w = t :: (v ++ [z]) ∧ t.kind = k ∧ z.kind = k' ∧ P v
  := by
  obtain ⟨w, hs, hw⟩ := h
  refine ⟨tokenOf k (String.ofList [c]) :: (w ++ [tokenOf k' (String.ofList [d])]), ?_, ?_⟩
  · intro rest _
    rw [List.cons_append, forms_solid _ hc, List.append_assoc, List.cons_append, List.nil_append,
      hs.before _ hword, forms_solid _ hd]
    simp
  · intro u hu
    obtain ⟨t, v, z, rfl, ht, hv, hz⟩ := forms_eq_enclosed hu
    exact ⟨t, v, z, rfl, ht, hz, hw v hv⟩

/-- A list of texts with commas in between. -/
theorem written_items {α : Type} {text : α → String} {P : List Token → α → Prop} {as : List α}
    (h : ∀ a ∈ as, Written (text a).toList fun w => P w a) :
  Written (", ".intercalate (as.map text)).toList fun w => Items P w as
  := by
  induction as with
  | nil =>
      refine ⟨[], fun _ _ => rfl, ?_⟩
      intro u hu
      obtain rfl := List.map_eq_nil_iff.mp hu
      exact .none
  | cons a as ih =>
      have ha := h a List.mem_cons_self
      have has := ih fun b hb => h b (List.mem_cons_of_mem a hb)
      cases as with
      | nil =>
          rw [List.map_singleton, String.intercalate_singleton]
          exact ha.imp fun _ => .last
      | cons b as =>
          obtain ⟨w, hs, hw⟩ := ha
          obtain ⟨v, hsv, hv⟩ := has
          refine ⟨w ++ tokenOf .comma "," :: v, spells_items hs hsv, ?_⟩
          intro u hu
          obtain ⟨w', t, v', rfl, hw', ht, hv'⟩ := forms_eq_around hu
          exact .more (hw w' hw') ht (hv v' hv')

/-! ### Reading the text of data -/

/-- The refusal of the number that the least integer is written with. -/
def leastRefused (pos : Pos) : ReadFailure := .refused (.range "2147483648" (some pos))

/-- What the tokens of the text of data come to: an expression that yields the data, or a refusal if
the least integer occurs in it. -/
inductive ReadsBack (v : Value) (w : List Token) : Prop
  | value {e : Expr} : ¬ v.HasLeast → Derives (.expr 7) w e → Yields w.length e v → ReadsBack v w
  | least {pos : Pos} : v.HasLeast → Refuses (leastRefused pos) w → ReadsBack v w

/-- The tokens of an entry. -/
structure ReadsEntry (w : List Token) (p : String × Value) : Prop where
  tokens : ∃ t c u, w = t :: c :: u ∧ t.kind = .string ∧ t.literal = p.1 ∧ c.kind = .colon
    ∧ ReadsBack p.2 u

/-- Items are all read, or they are read up to a broken one. -/
theorem read_or_broken {α : Type} {item : Sym} {P : List Token → α → Prop} {bad : α → Prop}
    {R K : item.Tree → α → Prop} {B : Pos → List Token → item.Tree → Prop} {n : Nat}
    (hRK : ∀ b a, R b a → K b a)
    (hP : ∀ {w a}, P w a → w.length ≤ n → (¬ bad a ∧ ∃ b, Derives item w b ∧ R b a)
      ∨ (bad a ∧ ∃ pos b, B pos w b ∧ K b a))
    {w : List Token} {as : List α} (h : Items P w as) (hn : w.length ≤ n) :
  ((∀ a ∈ as, ¬ bad a) ∧ ∃ bs, Derives (.list item) w bs ∧ List.Forall₂ R bs as)
    ∨ ((∃ a ∈ as, bad a) ∧ ∃ pos bs, Broken (Derives item) (B pos) w bs
        ∧ ∃ as', as' <+: as ∧ List.Forall₂ K bs as')
  := by
  induction h with
  | none => exact .inl ⟨by simp, [], .noItems, .nil⟩
  | @last w a ha =>
      rcases hP ha hn with ⟨hgood, b, hd, hR⟩ | ⟨hbad, pos, b, hB, hK⟩
      · exact .inl ⟨by simpa using hgood, [b], .lastItem hd, .cons hR .nil⟩
      · refine .inr ⟨⟨a, List.mem_cons_self, hbad⟩, pos, [b], ?_, [a], List.prefix_rfl,
          .cons hK .nil⟩
        rw [← List.append_nil w]
        exact .here hB
  | @more w a t v as ha ht _ ih =>
      simp only [List.length_append, List.length_cons] at hn
      rcases hP ha (by omega) with ⟨hgood, b, hd, hR⟩ | ⟨hbad, pos, b, hB, hK⟩
      · rcases ih (by omega) with
          ⟨hall, bs, hds, hRs⟩ | ⟨⟨a', ha', hbad⟩, pos, bs, hbs, as', has', hK⟩
        · refine .inl ⟨?_, b :: bs, .moreItems hd ht hds, .cons hR hRs⟩
          exact List.forall_mem_cons.mpr ⟨hgood, hall⟩
        · exact .inr ⟨⟨a', List.mem_cons_of_mem a ha', hbad⟩, pos, b :: bs, .later hd ht hbs,
            a :: as', (List.prefix_cons_inj a).mpr has', .cons (hRK b a hR) hK⟩
      · -- Nothing is read behind the broken item, so the items after it do not count.
        exact .inr ⟨⟨a, List.mem_cons_self, hbad⟩, pos, [b], .here hB, [a],
          ⟨as, rfl⟩, .cons hK .nil⟩

/-- A number in the range that is not negative. -/
theorem written_nat {n : Nat} (h : n ≤ 2147483647) :
  Written (Value.int n).text.toList (ReadsBack (.int n))
  := by
  apply (written_token fun rest hrest => forms_ofNat n hrest).imp
  rintro _ ⟨t, rfl, ht, hliteral⟩
  have hvalue : Decimal.value t.literal = n := by rw [hliteral, Decimal.value_ofNat]
  have hlength : t.literal.length ≤ 4300 := hliteral ▸ length_ofNat_le h
  have hd := Derives.int ht hlength (hvalue ▸ h)
  rw [hvalue] at hd
  refine .value ?_ hd (yields_literal Nat.one_pos (fun _ _ => rfl) rfl (.int _))
  rw [Value.hasLeast_int]
  omega

/-- A negative number is written as an operator in front of a number, which is out of the range if
the negative number is the least one. -/
theorem written_neg {n : Nat} (hpos : 0 < n) (h : n ≤ 2147483648) :
  Written (Value.int (-n)).text.toList (ReadsBack (.int (-n)))
  := by
  obtain ⟨k, rfl⟩ : ∃ k, n = k + 1 := ⟨n - 1, by omega⟩
  have htext : (Value.int (-(k + 1 : Nat))).text.toList
      = '-' :: (Decimal.ofNat (k + 1)).toList := by
    rw [Value.text, Int.natCast_succ, ← Int.negSucc_eq, Decimal.ofInt]
    simp
  refine ⟨[tokenOf .minus "-", tokenOf .int (Decimal.ofNat (k + 1))], ?_, ?_⟩
  · intro rest hrest
    rw [htext, List.cons_append, forms_solid _ rfl, forms_ofNat _ (hrest rfl)]
    simp
  · intro u hu
    obtain ⟨m, u, rfl, hm, -, hu⟩ := forms_eq_cons_token hu
    obtain ⟨t, rfl, ht, hliteral⟩ := forms_eq_singleton hu
    simp only [tokenOf] at hm ht hliteral
    have hvalue : Decimal.value t.literal = k + 1 := by rw [hliteral, Decimal.value_ofNat]
    rcases Nat.lt_or_eq_of_le h with hlt | heq
    · have hk : k + 1 ≤ 2147483647 := by omega
      have hlength : t.literal.length ≤ 4300 := hliteral ▸ length_ofNat_le hk
      have hd := Derives.int ht hlength (hvalue ▸ hk)
      rw [hvalue] at hd
      have hop : (m.kind, .neg) ∈ unaryOperators := by
        rw [hm]
        decide
      refine .value ?_ (.unary hop hd) (yields_neg hk)
      rw [Value.hasLeast_int]
      omega
    · have hleast : t.literal = "2147483648" := by
        rw [hliteral, heq]
        decide
      have hrefuses := refuses_range hm ht (by rw [hleast]; decide) (by rw [hvalue, heq]; decide)
      rw [hleast] at hrefuses
      refine .least ?_ hrefuses
      rw [Value.hasLeast_int, heq]
      rfl

theorem written_bool (b : Bool) :
  Written (Value.bool b).text.toList (ReadsBack (.bool b))
  := by
  have hleast := Value.not_hasLeast_bool b
  have hyields : ∀ p, Yields 1 (.bool p b) (.bool b) := fun _ =>
    yields_literal Nat.one_pos (fun _ _ => rfl) rfl (.bool b)
  cases b with
  | true =>
      have htext : (Value.bool true).text.toList = ['t', 'r', 'u', 'e'] := by simp
      rw [htext]
      apply (written_token fun rest hrest => forms_keyword ['t', 'r', 'u', 'e'] rfl rfl hrest).imp
      rintro _ ⟨t, rfl, ht, -⟩
      exact .value hleast (.trueWord ht) (hyields _)
  | false =>
      have htext : (Value.bool false).text.toList = ['f', 'a', 'l', 's', 'e'] := by simp
      rw [htext]
      apply (written_token fun rest hrest =>
        forms_keyword ['f', 'a', 'l', 's', 'e'] rfl rfl hrest).imp
      rintro _ ⟨t, rfl, ht, -⟩
      exact .value hleast (.falseWord ht) (hyields _)

theorem written_str (s : String) :
  Written (Value.str s).text.toList (ReadsBack (.str s))
  := by
  apply (written_token fun rest _ => forms_quote s rest).imp
  rintro _ ⟨t, rfl, ht, rfl⟩
  exact .value (Value.not_hasLeast_str _) (.str ht)
    (yields_literal Nat.one_pos (fun _ _ => rfl) rfl (.str _))

/-- The elements of an array are all read, or they are read up to one with the least integer. -/
theorem read_elements {w : List Token} {vs : List Value}
    (h : Items (fun w v => ReadsBack v w) w vs) :
  ((∀ v ∈ vs, ¬ v.HasLeast)
      ∧ ∃ es, Derives (.list (.expr 0)) w es ∧ List.Forall₂ (Yields w.length) es vs)
    ∨ ((∃ v ∈ vs, v.HasLeast)
      ∧ ∃ pos es, Broken (Derives (.expr 0)) (fun w _ => Refuses (leastRefused pos) w) w es
        ∧ ∃ vs', vs' <+: vs ∧ List.Forall₂ (fun _ _ => True) es vs')
  := by
  apply read_or_broken (fun _ _ _ => trivial) _ h (Nat.le_refl _)
  intro u v hread hu
  cases hread with
  | value hleast hd hyields =>
      exact .inl ⟨hleast, _, hd.looser (Nat.zero_le _), hyields.mono hu⟩
  | least hleast hrefuses => exact .inr ⟨hleast, _, .bare none, hrefuses, trivial⟩

theorem written_array {i : Serial} {vs : List Value}
    (h : ∀ v ∈ vs, Written v.text.toList (ReadsBack v)) :
  Written (Value.array i vs).text.toList (ReadsBack (.array i vs))
  := by
  have htext : (Value.array i vs).text.toList
      = '[' :: ((", ".intercalate (vs.map Value.text)).toList ++ [']']) := by
    simp [Value.texts_eq_map]
  have hopen : solidMark? '[' = some .lbracket := rfl
  have hclose : solidMark? ']' = some .rbracket := rfl
  have hitems : Written _ fun w => Items (fun w v => ReadsBack v w) w vs := written_items h
  rw [htext]
  apply (written_enclosed hitems hopen hclose rfl).imp
  rintro _ ⟨t, w, z, rfl, ht, hz, hw⟩
  rcases read_elements hw with ⟨hgood, es, hd, hes⟩ | ⟨hbad, pos, es, hbroken, -⟩
  · refine .value ?_ (.array ht hd hz) ((yields_array hes).mono ?_)
    · rw [Value.hasLeast_array]
      rintro ⟨v, hv, hleast⟩
      apply hgood v hv hleast
    · simp
  · exact .least (Value.hasLeast_array.mpr hbad) (refuses_array ht hbroken)

theorem written_entry {p : String × Value} (h : Written p.2.text.toList (ReadsBack p.2)) :
  Written (Escape.quote p.1 ++ ": " ++ p.2.text).toList fun w => ReadsEntry w p
  := by
  obtain ⟨w, hs, hw⟩ := h
  refine ⟨tokenOf .string p.1 :: tokenOf .colon ":" :: w, ?_, ?_⟩
  · intro rest hrest
    have htext : (Escape.quote p.1 ++ ": " ++ p.2.text).toList ++ rest
        = (Escape.quote p.1).toList ++ ':' :: ' ' :: (p.2.text.toList ++ rest) := by
      simp
    rw [htext, forms_quote, forms_solid _ rfl, forms_space, hs rest hrest]
    rfl
  · intro u hu
    obtain ⟨t, u, rfl, ht, hliteral, hu⟩ := forms_eq_cons_token hu
    obtain ⟨c, u, rfl, hc, -, hu⟩ := forms_eq_cons_token hu
    exact ⟨t, c, u, rfl, ht, hliteral, hc, hw u hu⟩

/-- The entries of a map are all read, or they are read up to one with the least integer. -/
theorem read_entries {w : List Token} {es : List (String × Value)} (h : Items ReadsEntry w es) :
  ((∀ p ∈ es, ¬ p.2.HasLeast)
      ∧ ∃ fs, Derives (.list .entry) w fs
        ∧ List.Forall₂ (fun f p => f.1 = p.1 ∧ Yields w.length f.2 p.2) fs es)
    ∨ ((∃ p ∈ es, p.2.HasLeast)
      ∧ ∃ pos fs, Broken (Derives .entry) (RefusesEntry (leastRefused pos)) w fs
        ∧ ∃ es', es' <+: es ∧ List.Forall₂ (fun f p => f.1 = p.1) fs es')
  := by
  apply read_or_broken (fun _ _ h => h.1) _ h (Nat.le_refl _)
  rintro u p ⟨t, c, u, rfl, ht, hliteral, hc, hread⟩ hu
  simp only [List.length_cons] at hu
  cases hread with
  | value hleast hd hyields =>
      refine .inl ⟨hleast, _, .entry ht hc (hd.looser (Nat.zero_le _)), hliteral, ?_⟩
      apply hyields.mono
      omega
  | least hleast hrefuses =>
      exact .inr ⟨hleast, _, (p.1, .bare none), ⟨t, c, u, rfl, ht, hliteral, hc, hrefuses⟩, rfl⟩

theorem written_map {i : Serial} {es : List (String × Value)} (hkeys : (es.map Prod.fst).Nodup)
    (h : ∀ p ∈ es, Written p.2.text.toList (ReadsBack p.2)) :
  Written (Value.map i es).text.toList (ReadsBack (.map i es))
  := by
  have htext : (Value.map i es).text.toList
      = '\x7b' :: ((", ".intercalate (es.map fun p => Escape.quote p.1 ++ ": " ++ p.2.text)).toList
          ++ ['\x7d']) := by
    simp [Value.entryTexts_eq_map]
  have hopen : solidMark? '\x7b' = some .lbrace := rfl
  have hclose : solidMark? '\x7d' = some .rbrace := rfl
  have hitems : Written _ fun w => Items ReadsEntry w es :=
    written_items fun p hp => written_entry (h p hp)
  rw [htext]
  apply (written_enclosed hitems hopen hclose rfl).imp
  rintro _ ⟨t, w, z, rfl, ht, hz, hw⟩
  rcases read_entries hw with ⟨hgood, fs, hd, hfs⟩ | ⟨hbad, pos, fs, hbroken, es', hes', hnames⟩
  · have hnames := names_eq_of_forall₂ (hfs.imp fun _ _ hfp => hfp.1)
    refine .value ?_ (.map ht hd (hnames ▸ hkeys) hz) ((yields_map hfs).mono ?_)
    · rw [Value.hasLeast_map]
      rintro ⟨p, hp, hleast⟩
      apply hgood p hp hleast
    · simp
  · refine .least (Value.hasLeast_map.mpr hbad) (refuses_map ht hbroken ?_)
    rw [names_eq_of_forall₂ hnames]
    apply hkeys.sublist (hes'.sublist.map Prod.fst)

/-- The text of data is read back. -/
theorem written_data {v : Value} (h : v.IsData) :
  Written v.text.toList (ReadsBack v)
  := by
  induction h with
  | @int n hn =>
      obtain ⟨hlower, hupper⟩ := hn
      rcases Int.lt_or_le n 0 with hsign | hsign
      · obtain ⟨k, rfl⟩ := Int.exists_eq_neg_ofNat (Int.le_of_lt hsign)
        apply written_neg <;> omega
      · obtain ⟨k, rfl⟩ := Int.eq_ofNat_of_zero_le hsign
        apply written_nat
        omega
  | bool => apply written_bool
  | str => apply written_str
  | array _ ih => apply written_array ih
  | map hkeys _ ih => apply written_map hkeys ih

/-! ### Binding a name to the text of data -/

/-- The tokens around the value in a source text that binds the name `x`. -/
structure Binding (t n a z last : Token) : Prop where
  keyword : t.kind = .letWord
  name : n.kind = .ident
  literal : n.literal = "x"
  assign : a.kind = .assign
  semicolon : z.kind = .semicolon
  eof : last.kind = .eof

theorem tokensOf_bind {text : String} {P : List Token → Prop} (h : Written text.toList P) :
  ∃ t n a w z last, tokensOf ("let x = " ++ text ++ ";") = t :: n :: a :: (w ++ [z]) ++ [last]
    ∧ Binding t n a z last ∧ P w
  := by
  obtain ⟨w, hs, hw⟩ := h
  have htext : ("let x = " ++ text ++ ";").toList
      = 'l' :: 'e' :: 't' :: ' ' :: (['x'] ++ ' ' :: '=' :: ' ' :: (text.toList ++ [';'])) := by
    simp
  have hforms : (tokensOf ("let x = " ++ text ++ ";")).map Token.form
      = (tokenOf .letWord "let" :: tokenOf .ident "x" :: tokenOf .assign "="
          :: (w ++ [tokenOf .semicolon ";"]) ++ [tokenOf .eof ""]).map Token.form := by
    rw [map_form_tokensOf, htext, forms_let, forms_word rfl (apart_cons _ rfl), forms_space,
      forms_assign, hs.before _ rfl, forms_solid _ rfl, forms_nil]
    simp
    rfl
  obtain ⟨u, last, htokens, hu, hlast⟩ := forms_eq_concat hforms
  obtain ⟨t, u, rfl, ht, -, hu⟩ := forms_eq_cons_token hu
  obtain ⟨n, u, rfl, hn, hliteral, hu⟩ := forms_eq_cons_token hu
  obtain ⟨a, u, rfl, ha, -, hu⟩ := forms_eq_cons_token hu
  obtain ⟨w', z, rfl, hw', hz⟩ := forms_eq_concat hu
  exact ⟨t, n, a, w', z, last, htokens, ⟨ht, hn, hliteral, ha, hz, hlast⟩, hw w' hw'⟩

theorem TokenStream.eq_of_tokens {s : TokenStream} {w : List Token} {z : Token}
    (h : s.tokens = w ++ [z]) :
  s = ⟨w, z⟩
  := by
  obtain ⟨ahead, last⟩ := s
  obtain ⟨rfl, hlast⟩ := List.append_inj' h rfl
  cases hlast
  rfl

section

variable {t n a z last : Token} (hb : Binding t n a z last) {w : List Token} {limit : Nat}

include hb

/-- A source text that binds the name to an expression is read. -/
theorem Binding.read {e : Expr} (hd : Derives (.expr 7) w e) (hl : 3 * (w.length + 4) < limit) :
  ∃ rest, (Reader.program limit).run ⟨t :: n :: a :: (w ++ [z]), last⟩
    = .ok ⟨[.bind (some t.pos) "x" e]⟩ rest
  := by
  have hbind : Derives (.stmt false) (t :: n :: a :: (w ++ [z]))
      (.bind (some t.pos) n.literal e) :=
    .bind hb.keyword hb.name hb.assign (hd.looser (Nat.zero_le _)) hb.semicolon
  have hstmts := Derives.moreStmts hbind .noStmts (by simp)
  rw [List.append_nil, hb.literal] at hstmts
  have hprogram : Derives .program
      (TokenStream.mk (t :: n :: a :: (w ++ [z])) last).tokens ⟨[.bind (some t.pos) "x" e]⟩ :=
    .program hstmts hb.eof
  apply program_complete hprogram
  simp only [TokenStream.left, List.length_cons, List.length_append, List.length_nil]
  omega

/-- A source text that binds the name to what is refused is refused. -/
theorem Binding.refused {e : ReadFailure} (hw : Refuses e w) (hl : 3 * w.length < limit) :
  ∃ rest, (Reader.program limit).run ⟨t :: n :: a :: (w ++ [z]), last⟩ = .error e rest
  := by
  obtain ⟨limit, rfl⟩ : ∃ k, limit = k + 1 := ⟨limit - 1, by omega⟩
  obtain ⟨rest, hrest⟩ := hw.run_expression 0 ⟨[z], last⟩ (Nat.le_of_lt_succ hl)
  have hstatement : (Reader.statement (limit + 1)).run
      ((((TokenStream.prepend w ⟨[z], last⟩).push a).push n).push t) = .error e rest := by
    rw [Reader.statement, run_bind_of_ok (run_next _), TokenStream.head_push]
    simp only [hb.keyword]
    rw [run_bind_of_ok (run_take_push _ _), run_bind_of_ok (run_require_push hb.name _),
      run_bind_of_ok (run_require_push hb.assign _)]
    apply run_bind_of_error hrest
  have hkind : (TokenStream.mk (t :: n :: a :: (w ++ [z])) last).head.kind ≠ .eof := by
    rw [show (TokenStream.mk (t :: n :: a :: (w ++ [z])) last).head = t from rfl, hb.keyword]
    decide
  refine ⟨rest, ?_⟩
  rw [Reader.program]
  apply run_bind_of_error
  rw [upTo, run_get_bind, TokenStream.bound, upToIn, run_if_nextIs_of_ne hkind,
    run_if_nextIs_of_ne hkind]
  apply run_bind_of_error hstatement

end

/-- The name is bound to what an expression yields. -/
theorem run_bind_of_yields {least : Nat} {e : Expr} {v : Value} (h : Yields least e v)
    {limit : Nat} (hl : least < limit) (pos : Option Pos) (m : Machine) :
  ∃ w made, (Eval.statements limit [.bind pos "x" e]).run m
      = .ok [.unit] ({ m with made := made }.define "x" w)
    ∧ v.Alike .unnumbered w
  := by
  obtain ⟨limit, rfl⟩ : ∃ k, limit = k + 1 := ⟨limit - 1, by omega⟩
  obtain ⟨w, made, hw, hret, halike⟩ := h limit m (Nat.le_of_lt_succ hl)
  have hbind : (Eval.statement (limit + 1) (.bind pos "x" e)).run m
      = .ok .unit ({ m with made := made }.define "x" w) := by
    rw [Eval.run_bind, hw]
    simp only [hret, Bool.false_eq_true, if_false]
  refine ⟨w, made, ?_, halike⟩
  rw [Eval.statements, run_bind_of_ok hbind]
  rfl

namespace Session

/-- The root scope is the current one between the steps of a session. -/
theorem root_after (source : String) (steps : List Step) :
  ((start source).after steps).machine.cursor = Machine.root
    ∧ Machine.root < ((start source).after steps).machine.heap.size
  := by
  have hrests : Eval.Rests (fun _ => Value.OfParsed) Eval.Scoped ((start source).after steps) :=
    Eval.frame_law.rests_after Program.Parsed.statements Nat.one_pos source steps
  have hscoped := hrests.sound.state
  rw [Eval.Scoped, hrests.cursor] at hscoped
  exact ⟨hrests.cursor, hscoped⟩

/-- Data that is shown can be read back, in every session.  If the least integer of the range does
not occur in it, then binding a name to its text binds the name to equal data, with the entries of
maps in the same order; if it does, then the source text is refused for a number out of the range,
and nothing changes. -/
theorem evaluate_text {source : String} {steps : List Step} {s : Session}
    (hs : (start source).after steps = s) {v : Value} (h : v.IsData) :
  ∃ n, ∀ limit, n ≤ limit →
    v.render limit = .ok v.text
      ∧ (¬ v.HasLeast → ∃ s' w,
          (s.supply ("let x = " ++ v.text ++ ";")).evaluate limit = (.ok [.unit], s')
            ∧ s'.machine.heap.bindings Machine.root
              = Dict.set (s.machine.heap.bindings Machine.root) "x" w
            ∧ w.same v = true ∧ v.Alike .unnumbered w)
      ∧ (v.HasLeast → ∃ s' pos,
          (s.supply ("let x = " ++ v.text ++ ";")).evaluate limit
              = (.error (.error (.ofSource (.range "2147483648" (some pos)))), s')
            ∧ s'.machine = s.machine)
  := by
  obtain ⟨hcursor, hsize⟩ := root_after source steps
  rw [hs] at hcursor hsize
  obtain ⟨t, n, a, w, z, last, htokens, hb, hread⟩ := tokensOf_bind (written_data h)
  have hstream : TokenStream.ofSource ("let x = " ++ v.text ++ ";")
      = ⟨t :: n :: a :: (w ++ [z]), last⟩ := TokenStream.eq_of_tokens htokens
  -- Reading takes up to three levels for each token, and showing one for each part of the data.
  refine ⟨3 * (w.length + 5) + sizeOf v, ?_⟩
  intro limit hl
  have hlimit : 3 * (w.length + 4) < limit := by omega
  refine ⟨h.render_eq (by omega), ?_, ?_⟩
  · intro hleast
    cases hread with
    | least hleast' => apply absurd hleast' hleast
    | value _ hd hyields =>
        have hparsed := hb.read hd hlimit
        rw [← hstream, ← Program.read_eq_ok] at hparsed
        obtain ⟨rest, heval⟩ :=
          evaluate_of_read (s := s.supply ("let x = " ++ v.text ++ ";")) rfl hparsed
        have hlength : w.length < limit := by omega
        obtain ⟨x, made, hx, halike⟩ :=
          run_bind_of_yields hyields hlength (some t.pos) (s.record (.parsed 1)).machine
        have hrun : (Eval.statements limit [.bind (some t.pos) "x" _]).run
            ((s.supply ("let x = " ++ v.text ++ ";")).record (.parsed 1)).machine = _ := hx
        rw [List.length_singleton, hrun] at heval
        refine ⟨_, x, heval, ?_, h.same halike, halike⟩
        have hcursor' : (s.record (.parsed 1)).machine.cursor = Machine.root := hcursor
        rw [Machine.define, Heap.bindings_set, hcursor', if_pos ⟨rfl, hsize⟩]
        rfl
  · intro hleast
    cases hread with
    | value hleast' => apply absurd hleast hleast'
    | @least pos _ hrefuses =>
        have hlength : 3 * w.length < limit := by omega
        have hrefused := hb.refused hrefuses hlength
        rw [← hstream, ← Program.read_eq_error] at hrefused
        obtain ⟨rest, heval⟩ :=
          evaluate_of_unread (s := s.supply ("let x = " ++ v.text ++ ";")) rfl hrefused
        exact ⟨⟨rest, s.machine⟩, pos, heval, rfl⟩

/-- A map with a quote in a key, and a negative number in an array: they are read back.  The least
integer is not, however deep it lies. -/
theorem evaluate_text_nested :
  (∃ n, ∀ limit, n ≤ limit → ∃ s' w,
      ((start "").supply "let x = \x7b\"\\\"\": [-5, true], \"\": \"//\"\x7d;").evaluate limit
          = (.ok [.unit], s')
        ∧ s'.machine.heap.bindings Machine.root = [("x", w)]
        ∧ w.same (.map 0 [("\"", .array 1 [.int (-5), .bool true]), ("", .str "//")]) = true)
    ∧ ∃ n, ∀ limit, n ≤ limit → ∃ s' pos,
        ((start "").supply "let x = [[], [-2147483648]];").evaluate limit
          = (.error (.error (.ofSource (.range "2147483648" (some pos)))), s')
  := by
  have hstart : (start "").after [] = start "" := rfl
  constructor
  · have hdata : Value.IsData
        (.map 0 [("\"", .array 1 [.int (-5), .bool true]), ("", .str "//")]) := by
      refine .map (by decide) ?_
      intro p hp
      simp only [List.mem_cons, List.not_mem_nil, or_false] at hp
      rcases hp with rfl | rfl
      · refine .array ?_
        intro v hv
        simp only [List.mem_cons, List.not_mem_nil, or_false] at hv
        rcases hv with rfl | rfl
        · exact .int (by decide)
        · exact .bool
      · exact .str
    obtain ⟨n, hn⟩ := evaluate_text hstart hdata
    refine ⟨n, ?_⟩
    intro limit hl
    obtain ⟨-, hread, -⟩ := hn limit hl
    obtain ⟨s', w, heval, hbindings, hsame, -⟩ := hread (by simp)
    exact ⟨s', w, heval, hbindings, hsame⟩
  · have hdata : Value.IsData (.array 0 [.array 1 [], .array 2 [.int (-2147483648)]]) := by
      refine .array ?_
      intro v hv
      simp only [List.mem_cons, List.not_mem_nil, or_false] at hv
      rcases hv with rfl | rfl
      · exact .array nofun
      · refine .array ?_
        intro v hv
        rw [List.mem_singleton.mp hv]
        exact .int (by decide)
    obtain ⟨n, hn⟩ := evaluate_text hstart hdata
    refine ⟨n, ?_⟩
    intro limit hl
    obtain ⟨-, -, hrefuse⟩ := hn limit hl
    obtain ⟨s', pos, heval, -⟩ := hrefuse (by simp)
    exact ⟨s', pos, heval⟩

end Session

end ExprScript
