import ExprScript.Token.Cursor

/-!
# Tokens without their positions

The form of a token is its kind and its literal.  The forms in a text do not depend on where
the text stands, and they are found from the left: the trivia in front of a text are without
effect, and a lexeme in front of it gives the first form, if what follows cannot be taken for a
part of the lexeme.
-/

namespace ExprScript

/-- What a token says wherever it stands. -/
def Token.form (t : Token) : Kind × String := (t.kind, t.literal)

/-- What a lexeme says wherever it stands. -/
def Lexeme.form (l : Lexeme) : Kind × String := (l.kind, l.literal)

/-- The forms of the tokens of a text, up to and including the end of input. -/
def forms (text : List Char) : List (Kind × String) :=
  (Cursor.mk text 0 Pos.start).stream.tokens.map Token.form

/-! ### The first form -/

namespace Kind

theorem ofWord_ne_eof (s : String) :
  ofWord s ≠ .eof
  := by
  unfold ofWord
  split <;> decide

/-- An operator of two characters is neither the end of input nor an identifier. -/
theorem ofPair?_kind {c d : Char} {k : Kind} (h : ofPair? c d = some k) :
  k ≠ .eof ∧ k ≠ .ident
  := by
  unfold ofPair? at h
  split at h <;> cases h <;> decide

/-- What an operator of two characters starts with is the start of no other lexeme. -/
theorem first_of_pair {c d : Char} {k : Kind} (h : ofPair? c d = some k) :
  isSpace c = false ∧ isLetter c = false ∧ c.isDigit = false ∧ c ≠ '"' ∧ c ≠ '/'
  := by
  unfold ofPair? at h
  split at h
  all_goals first | decide | cases h

/-- An operator or a mark of one character is the start of no other lexeme. -/
theorem first_of_mark {c : Char} {k : Kind} (h : ofMark? c = some k) :
  isSpace c = false ∧ isLetter c = false ∧ c.isDigit = false ∧ c ≠ '"'
  := by
  unfold ofMark? at h
  split at h
  all_goals first | decide | cases h

/-- A mark, or a character that is none, is neither the end of input nor an identifier. -/
theorem ofMark?_kind (c : Char) :
  (ofMark? c).getD .illegal ≠ .eof ∧ (ofMark? c).getD .illegal ≠ .ident
  := by
  unfold ofMark?
  split <;> decide

end Kind

namespace Lexeme

/-- An operator or a mark is neither the end of input nor an identifier. -/
theorem kind_sign (c : Char) (cs : List Char) :
  (sign c cs).kind ≠ .eof ∧ (sign c cs).kind ≠ .ident
  := by
  unfold sign
  split
  · apply Kind.ofMark?_kind
  · split
    · rename_i h
      apply Kind.ofPair?_kind h
    · apply Kind.ofMark?_kind

/-- No lexeme is the end of input. -/
theorem kind_front_ne_eof (c : Char) (cs : List Char) :
  (front c cs).kind ≠ .eof
  := by
  unfold front
  split
  · apply Kind.ofWord_ne_eof
  split
  · exact Kind.noConfusion
  split
  · cases stringBody cs <;> exact Kind.noConfusion
  · apply (kind_sign c cs).1

end Lexeme

namespace Cursor

/-- The text behind the trivia at the cursor. -/
theorem rest_skipTrivia (c : Cursor) :
  c.skipTrivia.rest = c.rest.drop (trivia false c.rest).length
  := rfl

/-- At the end of a text there is the end of input. -/
theorem form_next_of_nil {c : Cursor} (h : c.skipTrivia.rest = []) :
  c.next.1.form = (.eof, "")
  := by
  unfold next
  simp only [h]
  rfl

/-- In front of a lexeme there is the token of the lexeme. -/
theorem next_of_cons {c : Cursor} {x : Char} {xs : List Char} (h : c.skipTrivia.rest = x :: xs) :
  c.next.1.form = (Lexeme.front x xs).form
    ∧ c.next.2.rest = (x :: xs).drop (Lexeme.front x xs).text.length
  := by
  unfold next
  simp only [h]
  constructor
  · rfl
  · simp only [skip, h]

/-- At the end of a text the end of input is the only form. -/
theorem forms_stream_of_nil {c : Cursor} (h : c.skipTrivia.rest = []) :
  c.stream.tokens.map Token.form = [(.eof, "")]
  := by
  have hform := form_next_of_nil h
  have hkind : c.next.1.kind = .eof := congrArg Prod.fst hform
  rw [stream, if_pos hkind]
  apply congrArg (· :: []) hform

/-- In front of a lexeme the first form is that of the lexeme. -/
theorem forms_stream_of_cons {c : Cursor} {x : Char} {xs : List Char}
    (h : c.skipTrivia.rest = x :: xs) :
  c.stream.tokens.map Token.form
    = (Lexeme.front x xs).form :: c.next.2.stream.tokens.map Token.form
  := by
  obtain ⟨hform, -⟩ := next_of_cons h
  have hkind : c.next.1.kind ≠ .eof := by
    intro hk
    apply Lexeme.kind_front_ne_eof x xs
    rw [← hk]
    apply (congrArg Prod.fst hform).symm
  rw [stream, if_neg hkind, ← hform]
  rfl

/-- The forms from a cursor depend on the text in front of it only. -/
theorem forms_stream_congr (c d : Cursor) (h : c.rest = d.rest) :
  c.stream.tokens.map Token.form = d.stream.tokens.map Token.form
  := by
  have hskip : c.skipTrivia.rest = d.skipTrivia.rest := by
    rw [rest_skipTrivia, rest_skipTrivia, h]
  cases hd : d.skipTrivia.rest with
  | nil => rw [forms_stream_of_nil (hskip.trans hd), forms_stream_of_nil hd]
  | cons x xs =>
      have hc := hskip.trans hd
      have hkind : c.next.1.kind ≠ .eof := by
        rw [show c.next.1.kind = _ from congrArg Prod.fst (next_of_cons hc).1]
        apply Lexeme.kind_front_ne_eof
      have hlt := length_rest_next_lt c hkind
      rw [forms_stream_of_cons hc, forms_stream_of_cons hd]
      congr 1
      apply forms_stream_congr
      rw [(next_of_cons hc).2, (next_of_cons hd).2]
termination_by c.rest.length

end Cursor

/-- The forms in a text are those of its tokens. -/
theorem map_form_tokensOf (source : String) :
  (tokensOf source).map Token.form = forms source.toList
  := by
  apply Cursor.forms_stream_congr
  rfl

/-- The forms in a text start with that of the lexeme behind the trivia. -/
theorem forms_eq_cons {text : List Char} {x : Char} {xs : List Char}
    (h : text.drop (trivia false text).length = x :: xs) :
  forms text
    = (Lexeme.front x xs).form :: forms ((x :: xs).drop (Lexeme.front x xs).text.length)
  := by
  have hc : (Cursor.mk text 0 Pos.start).skipTrivia.rest = x :: xs := h
  unfold forms
  rw [Cursor.forms_stream_of_cons hc]
  congr 1
  apply Cursor.forms_stream_congr
  rw [(Cursor.next_of_cons hc).2]

theorem forms_eq_nil {text : List Char} (h : text.drop (trivia false text).length = []) :
  forms text = [(.eof, "")]
  := by
  apply Cursor.forms_stream_of_nil
  apply h

@[simp]
theorem forms_nil :
  forms [] = [(.eof, "")]
  := by
  apply forms_eq_nil
  rfl

/-! ### Spaces -/

/-- Only spaces and comments are trivia. -/
theorem trivia_cons_eq_nil {c : Char} {cs : List Char} (hs : isSpace c = false)
    (hc : ∀ d ∈ cs.head?, c = '/' → d ≠ '/') :
  trivia false (c :: cs) = []
  := by
  rw [trivia.eq_def]
  split
  case h_1 => rfl
  case h_2 h _ => cases h
  case h_3 h =>
    cases h
    apply absurd rfl (hc '/' rfl rfl)
  case h_4 h =>
    cases h
    simp [hs]

/-- A space in front of a text is without effect. -/
theorem forms_space (cs : List Char) :
  forms (' ' :: cs) = forms cs
  := by
  have htrivia : trivia false (' ' :: cs) = ' ' :: trivia false cs := rfl
  cases h : cs.drop (trivia false cs).length with
  | nil =>
      have hs : (' ' :: cs).drop (trivia false (' ' :: cs)).length = [] := by
        rw [htrivia]
        apply h
      rw [forms_eq_nil hs, forms_eq_nil h]
  | cons x xs =>
      have hs : (' ' :: cs).drop (trivia false (' ' :: cs)).length = x :: xs := by
        rw [htrivia]
        apply h
      rw [forms_eq_cons hs, forms_eq_cons h]

/-- A lexeme in front of a text, with no trivia before it, gives the first form. -/
theorem forms_lexeme {c : Char} (cs : List Char) {rest : List Char} {l : Lexeme}
    (hs : isSpace c = false)
    (hc : ∀ d ∈ (cs ++ rest).head?, c = '/' → d ≠ '/')
    (hl : Lexeme.front c (cs ++ rest) = l) (ht : l.text = c :: cs) :
  forms (c :: (cs ++ rest)) = l.form :: forms rest
  := by
  have hdrop : (c :: (cs ++ rest)).drop (trivia false (c :: (cs ++ rest))).length
      = c :: (cs ++ rest) := by
    rw [trivia_cons_eq_nil hs hc]
    rfl
  rw [forms_eq_cons hdrop, hl, ht]
  simp

/-! ### Words and numbers -/

/-- The text does not go on with a word or a number in front of it. -/
def Apart (text : List Char) : Prop := ∀ c ∈ text.head?, isWordChar c = false

theorem apart_nil :
  Apart []
  := by
  intro c hc
  cases hc

theorem apart_cons {c : Char} (cs : List Char) (h : isWordChar c = false) :
  Apart (c :: cs)
  := by
  intro d hd
  cases hd
  apply h

/-- Whether a text is a word: a letter, and letters or digits after it. -/
def isWord : List Char → Bool
  | [] => false
  | c :: cs => isLetter c && cs.all isWordChar

/-- What is taken of a text stops where the text goes on with something else. -/
theorem takeWhile_append_apart {p : Char → Bool} {cs rest : List Char} (h : cs.all p = true)
    (hr : ∀ c ∈ rest.head?, p c = false) :
  (cs ++ rest).takeWhile p = cs
  := by
  rw [List.takeWhile_append_of_pos (List.all_eq_true.mp h)]
  cases rest with
  | nil => simp
  | cons c rest => simp [hr c rfl]

/-- What goes on with a word is neither a space nor the start of a comment or an operator. -/
theorem isSpace_of_isWordChar {c : Char} (h : isWordChar c = true) :
  isSpace c = false ∧ c ≠ '/' ∧ c ≠ '='
  := by
  refine ⟨?_, ?_, ?_⟩
  · cases hs : isSpace c with
    | false => rfl
    | true =>
        simp only [isSpace, Bool.or_eq_true, decide_eq_true_eq] at hs
        rcases hs with ((rfl | rfl) | rfl) | rfl <;> cases h
  · rintro rfl
    cases h
  · rintro rfl
    cases h

theorem isWordChar_of_isLetter {c : Char} (h : isLetter c = true) :
  isWordChar c = true
  := by
  rw [isWordChar, h]
  rfl

theorem isWordChar_of_isDigit {c : Char} (h : c.isDigit = true) :
  isWordChar c = true
  := by
  rw [isWordChar, h]
  apply Bool.or_true

/-- A word in front of a text gives the first form. -/
theorem forms_word {word rest : List Char} (hw : isWord word = true) (hr : Apart rest) :
  forms (word ++ rest)
    = (Kind.ofWord (String.ofList word), String.ofList word) :: forms rest
  := by
  cases word with
  | nil => cases hw
  | cons c cs =>
      obtain ⟨hc, hcs⟩ := Bool.and_eq_true_iff.mp hw
      obtain ⟨hspace, hslash, -⟩ := isSpace_of_isWordChar (isWordChar_of_isLetter hc)
      apply forms_lexeme cs (l := Lexeme.word (c :: cs)) hspace
      · intro d _ h
        apply absurd h hslash
      · rw [Lexeme.front, if_pos hc, takeWhile_append_apart hcs hr]
      · rfl

/-- No digit is a letter. -/
theorem isLetter_of_isDigit {c : Char} (h : c.isDigit = true) :
  isLetter c = false
  := by
  cases hl : isLetter c with
  | false => rfl
  | true =>
      simp only [Char.isDigit, ge_iff_le, Bool.and_eq_true, decide_eq_true_eq,
        UInt32.le_iff_toNat_le] at h
      have hcases : ((decide (c.val ≥ 'A'.val ∧ c.val ≤ 'Z'.val)
          || decide (c.val ≥ 'a'.val) && decide (c.val ≤ 'z'.val)) || decide (c = '_')) = true := hl
      simp only [ge_iff_le, Bool.or_eq_true, Bool.and_eq_true, decide_eq_true_eq,
        UInt32.le_iff_toNat_le] at hcases
      rcases hcases with (hl | hl) | rfl
      · apply absurd (Nat.le_trans hl.1 h.2)
        decide
      · apply absurd (Nat.le_trans hl.1 h.2)
        decide
      · apply absurd h.2
        decide

/-- A number in front of a text gives the first form. -/
theorem forms_number {c : Char} {cs rest : List Char} (hc : c.isDigit = true)
    (hcs : cs.all Char.isDigit = true) (hr : Apart rest) :
  forms (c :: cs ++ rest) = (.int, String.ofList (c :: cs)) :: forms rest
  := by
  obtain ⟨hspace, hslash, -⟩ := isSpace_of_isWordChar (isWordChar_of_isDigit hc)
  apply forms_lexeme cs (l := Lexeme.plain .int (c :: cs)) hspace
  · intro d _ h
    apply absurd h hslash
  · have hrest : ∀ d ∈ rest.head?, d.isDigit = false := by
      intro d hd
      apply (Bool.or_eq_false_iff.mp (hr d hd)).2
    rw [Lexeme.front, if_neg (by simp [isLetter_of_isDigit hc]), if_pos hc,
      takeWhile_append_apart hcs hrest]
  · rfl

/-- An identifier: a word that is no keyword. -/
def IsIdent (name : String) : Prop := isWord name.toList = true ∧ Kind.ofWord name = .ident

/-- The literal of a lexeme that is an identifier is one. -/
theorem Lexeme.isIdent_front {c : Char} {cs : List Char} (h : (front c cs).kind = .ident) :
  IsIdent (front c cs).literal
  := by
  unfold front at h ⊢
  split at h
  · rename_i hc
    constructor
    · have hall : (cs.takeWhile isWordChar).all isWordChar = true := List.all_takeWhile
      simp [hc, word, plain, isWord, hall]
    · simpa [hc, word, plain] using h
  split at h
  · cases h
  split at h
  · cases hb : stringBody cs <;> rw [hb] at h <;> cases h
  · apply absurd h (kind_sign c cs).2

/-- The literal of the next token is an identifier if the token is one. -/
theorem Cursor.isIdent_next {c : Cursor} (h : c.next.1.kind = .ident) :
  IsIdent c.next.1.literal
  := by
  cases hc : c.skipTrivia.rest with
  | nil =>
      rw [show c.next.1.kind = .eof from congrArg Prod.fst (form_next_of_nil hc)] at h
      cases h
  | cons x xs =>
      obtain ⟨hform, -⟩ := next_of_cons hc
      rw [show c.next.1.kind = _ from congrArg Prod.fst hform] at h
      rw [show c.next.1.literal = _ from congrArg Prod.snd hform]
      apply Lexeme.isIdent_front h

/-- The literal of every token that is an identifier is one. -/
theorem Cursor.isIdent_of_mem_stream (c : Cursor) {t : Token} (ht : t ∈ c.stream.tokens)
    (hk : t.kind = .ident) :
  IsIdent t.literal
  := by
  fun_induction Cursor.stream c with
  | case1 c h =>
      obtain rfl := List.mem_singleton.mp ht
      rw [h] at hk
      cases hk
  | case2 c h ih =>
      rcases List.mem_cons.mp ht with rfl | ht
      · apply isIdent_next hk
      · apply ih ht

/-! ### String literals -/

/-- A character that is neither a quote nor a backslash stands for itself. -/
theorem stringBody_plain {c : Char} (hquote : c ≠ '"') (hslash : c ≠ '\\') (cs : List Char) :
  stringBody (c :: cs) = (stringBody cs).push c [c]
  := by
  rw [stringBody]
  · apply hquote
  · intro h
    apply absurd h hslash
  · intro _ _ h
    apply absurd h hslash

/-- A backslash and a letter stand for the character of the letter. -/
theorem stringBody_escape {l c : Char} (hl : Escape.char? l = some c) (cs : List Char) :
  stringBody ('\\' :: l :: cs) = (stringBody cs).push c ['\\', l]
  := by
  rw [stringBody, hl]

/-- What is written for a text, up to a closing quote, is read as the text. -/
theorem stringBody_encode (s rest : List Char) :
  stringBody (Escape.encode s ++ '"' :: rest) = .closed s (Escape.encode s ++ ['"'])
  := by
  induction s with
  | nil => rfl
  | cons c s ih =>
      rw [Escape.encode_cons, List.append_assoc]
      unfold Escape.written
      cases hl : Escape.letter? c with
      | some l =>
          simp only [List.cons_append, List.nil_append]
          rw [stringBody_escape (Escape.char?_of_letter? hl), ih]
          rfl
      | none =>
          have hquote : c ≠ '"' := by
            rintro rfl
            cases hl
          have hslash : c ≠ '\\' := by
            rintro rfl
            cases hl
          simp only [List.cons_append, List.nil_append]
          rw [stringBody_plain hquote hslash, ih]
          rfl

/-- A string literal in front of a text gives the first form, whatever follows. -/
theorem forms_quote (s : String) (rest : List Char) :
  forms ((Escape.quote s).toList ++ rest) = (.string, s) :: forms rest
  := by
  rw [Escape.quote, String.toList_ofList]
  have hfront : Lexeme.front '"' (Escape.encode s.toList ++ ['"'] ++ rest)
      = ⟨.string, s, '"' :: (Escape.encode s.toList ++ ['"'])⟩ := by
    have hbody := stringBody_encode s.toList rest
    rw [List.append_assoc, List.cons_append, List.nil_append, Lexeme.front, if_neg (by decide),
      if_neg (by decide), if_pos rfl, hbody]
    simp [Lexeme.ofStringBody]
  apply forms_lexeme _ _ _ hfront rfl
  · rfl
  · intro d _ h
    cases h

/-! ### Operators and punctuation -/

/-- Operators and marks are no other lexemes. -/
theorem front_of_sign {c : Char} (cs : List Char) (hl : isLetter c = false)
    (hd : c.isDigit = false) (hq : c ≠ '"') :
  Lexeme.front c cs = Lexeme.sign c cs
  := by
  rw [Lexeme.front, if_neg (by simp [hl]), if_neg (by simp [hd]), if_neg hq]

/-- An operator of two characters in front of a text gives the first form. -/
theorem forms_pair {c d : Char} {k : Kind} (h : Kind.ofPair? c d = some k) (rest : List Char) :
  forms (c :: d :: rest) = (k, String.ofList [c, d]) :: forms rest
  := by
  obtain ⟨hspace, hletter, hdigit, hquote, hslash⟩ := Kind.first_of_pair h
  apply forms_lexeme [d] (l := Lexeme.plain k [c, d]) hspace
  · intro _ _ h
    apply absurd h hslash
  · rw [front_of_sign _ hletter hdigit hquote]
    simp [Lexeme.sign, h]
  · rfl

/-- An operator or a mark of one character in front of a text gives the first form, if it is
not the start of a longer one. -/
theorem forms_mark {c : Char} {k : Kind} (h : Kind.ofMark? c = some k) {rest : List Char}
    (hr : ∀ d ∈ rest.head?, Kind.ofPair? c d = none ∧ (c = '/' → d ≠ '/')) :
  forms (c :: rest) = (k, String.ofList [c]) :: forms rest
  := by
  obtain ⟨hspace, hletter, hdigit, hquote⟩ := Kind.first_of_mark h
  apply forms_lexeme [] (l := Lexeme.plain k [c]) hspace
  · intro d hd
    apply (hr d hd).2
  · rw [List.nil_append, front_of_sign _ hletter hdigit hquote]
    cases rest with
    | nil => simp [Lexeme.sign, h]
    | cons d rest => simp [Lexeme.sign, h, (hr d rfl).1]
  · rfl

end ExprScript
