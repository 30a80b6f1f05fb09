import ExprScript.Proofs.Token.Partition

/-!
# Writing tokens

A token is written as its literal, and a string as the literal that denotes it.  Tokens that are
written with spaces in between are read again with the same kinds and literals, whatever they are
and in whatever order they come.
-/

namespace ExprScript

/-! ### Tokens that can be written -/

/-- A kind and a literal that a token in a source text can have, if it is not illegal. -/
inductive Writable : Kind → String → Prop
  | ident {name} : IsIdent name → Writable .ident name
  | keyword {word k} : Kind.ofWord word = k → k ≠ .ident → Writable k word
  | int {digits : String} : digits.toList ≠ [] → digits.toList.all Char.isDigit = true →
      Writable .int digits
  | string {contents} : Writable .string contents
  | pair {c d k} : Kind.ofPair? c d = some k → Writable k (String.ofList [c, d])
  | mark {c k} : Kind.ofMark? c = some k → Writable k (String.ofList [c])

/-- How a literal of a kind is written. -/
def Kind.write (kind : Kind) (literal : String) : String :=
  if kind = .string then Escape.quote literal else literal

/-- How a token is written. -/
def Token.written (t : Token) : String := t.kind.write t.literal

theorem Kind.write_of_ne {kind : Kind} (h : kind ≠ .string) (literal : String) :
  kind.write literal = literal
  := if_neg h

theorem Kind.ofWord_ne_string (s : String) :
  ofWord s ≠ .string
  := by
  unfold ofWord
  split <;> decide

theorem Kind.ofPair?_ne_string {c d : Char} {k : Kind} (h : ofPair? c d = some k) :
  k ≠ .string
  := by
  unfold ofPair? at h
  split at h <;> cases h <;> decide

theorem Kind.ofMark?_ne_string {c : Char} {k : Kind} (h : ofMark? c = some k) :
  k ≠ .string
  := by
  unfold ofMark? at h
  split at h <;> cases h <;> decide

/-- What is no identifier is a keyword only if it is one of the words of the language. -/
theorem Kind.isWord_of_keyword {word : String} (h : ofWord word ≠ .ident) :
  isWord word.toList = true
  := by
  unfold ofWord at h
  split at h
  all_goals first | rfl | apply absurd rfl h

/-! ### Reading what was written -/

/-- What is written in front of a space, or at the end of a text, gives the first form. -/
theorem forms_write {kind : Kind} {literal : String} (h : Writable kind literal)
    {rest : List Char} (hrest : ∀ c ∈ rest.head?, c = ' ') :
  forms ((kind.write literal).toList ++ rest) = (kind, literal) :: forms rest
  := by
  have hapart : Apart rest := by
    intro c hc
    rw [hrest c hc]
    rfl
  cases h with
  | ident hname =>
      rw [Kind.write_of_ne (by decide), forms_word hname.1 hapart, String.ofList_toList, hname.2]
  | keyword hkind hne =>
      subst hkind
      rw [Kind.write_of_ne (Kind.ofWord_ne_string literal),
        forms_word (Kind.isWord_of_keyword hne) hapart, String.ofList_toList]
  | int hne hdigits =>
      obtain ⟨c, cs, hcs⟩ := List.exists_cons_of_ne_nil hne
      rw [hcs, List.all_cons, Bool.and_eq_true_iff] at hdigits
      rw [Kind.write_of_ne (by decide), hcs, forms_number hdigits.1 hdigits.2 hapart, ← hcs,
        String.ofList_toList]
  | string => apply forms_quote
  | @pair c d k hk =>
      rw [Kind.write_of_ne (Kind.ofPair?_ne_string hk), String.toList_ofList]
      apply forms_pair hk
  | @mark c k hk =>
      rw [Kind.write_of_ne (Kind.ofMark?_ne_string hk), String.toList_ofList]
      apply forms_mark hk
      intro d hd
      rw [hrest d hd]
      -- No operator of two characters ends with a space, and no comment starts with one.
      refine ⟨?_, fun _ => by decide⟩
      unfold Kind.ofPair?
      split <;> simp_all

/-- Written tokens with spaces in between give their forms. -/
theorem forms_intercalate_written {ts : List Token}
    (h : ∀ t ∈ ts, Writable t.kind t.literal) :
  forms (" ".intercalate (ts.map Token.written)).toList = ts.map Token.form ++ [(.eof, "")]
  := by
  induction ts with
  | nil => exact forms_nil
  | cons t ts ih =>
      have ht := h t List.mem_cons_self
      have hts := ih fun u hu => h u (List.mem_cons_of_mem t hu)
      cases ts with
      | nil =>
          have hlast := @forms_write _ _ ht [] (by simp)
          rw [List.append_nil, forms_nil] at hlast
          rw [List.map_singleton, String.intercalate_singleton]
          apply hlast
      | cons u ts =>
          have htext : (" ".intercalate ((t :: u :: ts).map Token.written)).toList
              = t.written.toList
                ++ ' ' :: (" ".intercalate ((u :: ts).map Token.written)).toList := by
            simp [String.intercalate_cons_cons]
          have hspace : ∀ rest : List Char, ∀ c ∈ (' ' :: rest).head?, c = ' ' := by simp
          rw [htext, Token.written, forms_write ht (hspace _), forms_space, hts]
          rfl

/-! ### The tokens of a source text -/

/-- A lexeme is a token that can be written. -/
theorem IsLexeme.writable {kind : Kind} {literal : String} {w : List Char}
    (h : IsLexeme kind literal w) :
  Writable kind literal
  := by
  cases h with
  | word hw =>
      by_cases hkind : Kind.ofWord (String.ofList w) = .ident
      · rw [hkind]
        exact .ident ⟨by rwa [String.toList_ofList], hkind⟩
      · exact .keyword rfl hkind
  | number hne hw => exact .int (by rwa [String.toList_ofList]) (by rwa [String.toList_ofList])
  | mark hk => exact .mark hk
  | pair hk => exact .pair hk
  | string _ => exact .string

/-- A token that is cut off a text is a lexeme, if it is not illegal. -/
theorem Cuts.writable {text w : List Char} {kind : Kind} {literal : String}
    (h : Cuts text kind literal w) (hkind : kind ≠ .illegal) :
  Writable kind literal
  := by
  by_cases hlegal : ∃ w', w' <+: text ∧ Legal w'
  · apply (h.legal hlegal).2.writable
  · apply absurd (h.stray hlegal).1 hkind

/-- The tokens of a source text are some that can be written or are illegal, and then the end of
input. -/
theorem tokensOf_eq_concat (source : String) :
  ∃ ts last, tokensOf source = ts ++ [last] ∧ last.form = (.eof, "")
    ∧ ∀ t ∈ ts, t.kind ≠ .illegal → Writable t.kind t.literal
  := by
  obtain ⟨pieces, tail, last, hpartition, hlists⟩ := exists_partition [] source.toList
  refine ⟨pieces.map Piece.token, last, congrArg TokenStream.tokens hlists.stream, ?_, ?_⟩
  · exact Prod.ext hpartition.ending.1 hpartition.ending.2.1
  · intro t ht hkind
    obtain ⟨p, hp, rfl⟩ := List.mem_map.mp ht
    obtain ⟨done, left, rfl⟩ := List.append_of_mem hp
    apply (hpartition.fits done p left rfl).cut.writable hkind

/-- Tokens survive being written and read again.  The text of any tokens that can be written, with
single spaces in between, has the same tokens and then the end of input, positions aside.  So have
the tokens of every source text in which nothing is illegal. -/
theorem tokensOf_written :
  (∀ ts : List Token, (∀ t ∈ ts, Writable t.kind t.literal) →
      (tokensOf (" ".intercalate (ts.map Token.written))).map Token.form
        = ts.map Token.form ++ [(.eof, "")])
    ∧ ∀ source, (∀ t ∈ tokensOf source, t.kind ≠ .illegal) →
      (tokensOf (" ".intercalate ((tokensOf source).dropLast.map Token.written))).map Token.form
        = (tokensOf source).map Token.form
  := by
  have hwritten : ∀ ts : List Token, (∀ t ∈ ts, Writable t.kind t.literal) →
      (tokensOf (" ".intercalate (ts.map Token.written))).map Token.form
        = ts.map Token.form ++ [(.eof, "")] := by
    intro ts h
    rw [map_form_tokensOf]
    apply forms_intercalate_written h
  refine ⟨hwritten, ?_⟩
  intro source hlegal
  obtain ⟨ts, last, htokens, hlast, hts⟩ := tokensOf_eq_concat source
  rw [htokens] at hlegal ⊢
  rw [List.dropLast_concat, hwritten ts, List.map_append, List.map_singleton, hlast]
  intro t ht
  apply hts t ht
  apply hlegal t (List.mem_append_left _ ht)

/-- A string that holds a quote and the start of a comment, between two slashes, and a source text
whose tokens touch each other. -/
theorem tokensOf_written_slashes :
  (tokensOf (" ".intercalate ([⟨.slash, "/", ⟨0, 0⟩⟩, ⟨.string, "// \"", ⟨0, 0⟩⟩,
      ⟨.slash, "/", ⟨0, 0⟩⟩].map Token.written))).map Token.form
      = [(.slash, "/"), (.string, "// \""), (.slash, "/"), (.eof, "")]
    ∧ (tokensOf (" ".intercalate ((tokensOf "a<=!1").dropLast.map Token.written))).map Token.form
      = (tokensOf "a<=!1").map Token.form
  := by
  constructor
  · apply tokensOf_written.1
    have hslash : Writable .slash "/" := .mark (c := '/') rfl
    intro t ht
    simp only [List.mem_cons, List.not_mem_nil, or_false] at ht
    rcases ht with rfl | rfl | rfl
    · exact hslash
    · exact .string
    · exact hslash
  · apply tokensOf_written.2
    decide +kernel

end ExprScript
