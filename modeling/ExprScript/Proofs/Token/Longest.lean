import ExprScript.Proofs.Token.Split

/-!
# Lexemes by longest match

The classes of texts that a source text is cut into: trivia, the lexemes of the language, and what
is taken where no lexeme stands.  Trivia and lexemes are defined here by what they are made of, not
by how they are found.  They are found by taking the longest one that stands in front of a text.
-/

namespace ExprScript

/-- The text `t` is the longest one of a class that stands in front of a text. -/
structure Longest (P : List Char → Prop) (text t : List Char) : Prop where
  front : t <+: text
  mem : P t
  most : ∀ t', t' <+: text → P t' → t'.length ≤ t.length

/-! ### Trivia -/

/-- A run of spaces and of comments, which go from two slashes up to a line feed or the end. -/
inductive IsTrivia : List Char → Prop
  | nil : IsTrivia []
  | space {c cs} : isSpace c = true → IsTrivia cs → IsTrivia (c :: cs)
  | comment {line cs} : '\n' ∉ line → (∀ c ∈ cs.head?, c = '\n') → IsTrivia cs →
      IsTrivia ('/' :: '/' :: (line ++ cs))

/-- What goes on with a run of trivia, inside of a comment or outside. -/
def Resumes : Bool → List Char → Prop
  | false, t => IsTrivia t
  | true, t => ∃ line cs, t = line ++ cs ∧ '\n' ∉ line ∧ (∀ c ∈ cs.head?, c = '\n') ∧ IsTrivia cs

theorem resumes_trivia (b : Bool) (text : List Char) :
  Resumes b (trivia b text)
  := by
  fun_induction trivia b text with
  | case1 b =>
      cases b with
      | false => exact .nil
      | true =>
          refine ⟨[], [], rfl, List.not_mem_nil, ?_, .nil⟩
          rintro _ ⟨⟩
  | case2 c cs ih =>
      by_cases hc : c = '\n'
      · -- The line feed ends the comment.
        subst hc
        refine ⟨[], _, rfl, List.not_mem_nil, ?_, .space rfl ih⟩
        rintro _ ⟨⟩
        rfl
      · rw [decide_eq_true hc] at ih ⊢
        obtain ⟨line, rest, h, hline, hrest, htrivia⟩ := ih
        refine ⟨c :: line, rest, by rw [h, List.cons_append], ?_, hrest, htrivia⟩
        rw [List.mem_cons, not_or]
        exact ⟨Ne.symm hc, hline⟩
  | case3 cs ih =>
      obtain ⟨line, rest, h, hline, hrest, htrivia⟩ := ih
      rw [h]
      exact .comment hline hrest htrivia
  | case4 c cs _ hspace ih => exact .space hspace ih
  | case5 => exact .nil

theorem trivia_front (b : Bool) (text : List Char) :
  trivia b text <+: text
  := by
  fun_induction trivia b text with
  | case1 => apply List.prefix_refl
  | case2 c cs ih => apply List.cons_prefix_cons.mpr ⟨rfl, ih⟩
  | case3 cs ih =>
      apply List.cons_prefix_cons.mpr ⟨rfl, ?_⟩
      apply List.cons_prefix_cons.mpr ⟨rfl, ih⟩
  | case4 c cs _ _ ih => apply List.cons_prefix_cons.mpr ⟨rfl, ih⟩
  | case5 => apply List.nil_prefix

/-- A comment takes up the rest of its line. -/
theorem trivia_line {line : List Char} (h : '\n' ∉ line) (text : List Char) :
  trivia true (line ++ text) = line ++ trivia true text
  := by
  induction line with
  | nil => rfl
  | cons c line ih =>
      rw [List.mem_cons, not_or] at h
      have hc : decide (c ≠ '\n') = true := decide_eq_true (Ne.symm h.1)
      rw [List.cons_append, trivia, hc, ih h.2, List.cons_append]

/-- No run of trivia in front of a text goes beyond the one that is found. -/
theorem prefix_trivia {t text : List Char} (ht : IsTrivia t) (h : t <+: text) :
  t <+: trivia false text
  := by
  induction ht generalizing text with
  | nil => apply List.nil_prefix
  | @space c cs hc _ ih =>
      obtain ⟨rest, rfl⟩ := h
      rw [List.cons_append, trivia_space hc]
      apply List.cons_prefix_cons.mpr ⟨rfl, ih (List.prefix_append _ _)⟩
  | @comment line cs hline hcs _ ih =>
      obtain ⟨rest, rfl⟩ := h
      simp only [List.cons_append, List.append_assoc]
      rw [trivia, trivia_line hline]
      apply List.cons_prefix_cons.mpr ⟨rfl, ?_⟩
      apply List.cons_prefix_cons.mpr ⟨rfl, ?_⟩
      apply (List.prefix_append_right_inj line).mpr
      cases cs with
      | nil => apply List.nil_prefix
      | cons c cs =>
          cases hcs c rfl
          exact ih (List.prefix_append _ _)

theorem longest_trivia (text : List Char) :
  Longest IsTrivia text (trivia false text)
  where
  front := trivia_front false text
  mem := resumes_trivia false text
  most _ h ht := (prefix_trivia ht h).length_le

/-! ### Strings -/

/-- A text inside of quotes, and the contents that it stands for. -/
inductive Denotes : List Char → List Char → Prop
  | nil : Denotes [] []
  | plain {c text contents} : c ≠ '"' → c ≠ '\\' → Denotes text contents →
      Denotes (c :: text) (c :: contents)
  | escape {l c text contents} : Escape.char? l = some c → Denotes text contents →
      Denotes ('\\' :: l :: text) (c :: contents)

/-- What is read after an opening quote: a text inside of quotes and then the closing quote, a
backslash without a known escape, or nothing more. -/
inductive Bodies : List Char → StringBody → Prop
  | closed {text contents rest} : Denotes text contents →
      Bodies (text ++ '"' :: rest) (.closed contents (text ++ ['"']))
  | badEscape {text contents rest} : Denotes text contents →
      (∀ l ∈ rest.head?, Escape.char? l = none) →
      Bodies (text ++ '\\' :: rest)
        (.badEscape (text ++ ['\\']) (text ++ '\\' :: rest.head?.toList))
  | unclosed {text contents} : Denotes text contents → Bodies text (.unclosed text)

theorem Bodies.plain {c : Char} {s : List Char} {body : StringBody} (hquote : c ≠ '"')
    (hslash : c ≠ '\\') (h : Bodies s body) :
  Bodies (c :: s) (body.push c [c])
  := by
  cases h with
  | closed ht => exact .closed (.plain hquote hslash ht)
  | badEscape ht hrest => exact .badEscape (.plain hquote hslash ht) hrest
  | unclosed ht => exact .unclosed (.plain hquote hslash ht)

theorem Bodies.escape {l c : Char} {s : List Char} {body : StringBody}
    (hl : Escape.char? l = some c) (h : Bodies s body) :
  Bodies ('\\' :: l :: s) (body.push c ['\\', l])
  := by
  cases h with
  | closed ht => exact .closed (.escape hl ht)
  | badEscape ht hrest => exact .badEscape (.escape hl ht) hrest
  | unclosed ht => exact .unclosed (.escape hl ht)

theorem bodies_stringBody (s : List Char) :
  Bodies s (stringBody s)
  := by
  fun_induction stringBody s with
  | case1 => exact .unclosed .nil
  | case2 cs => exact .closed .nil
  | case3 =>
      apply @Bodies.badEscape [] [] [] .nil
      rintro _ ⟨⟩
  | case4 l cs c hc ih => exact ih.escape hc
  | case5 l cs hc =>
      apply @Bodies.badEscape [] [] (l :: cs) .nil
      rintro _ ⟨⟩
      apply hc
  | case6 c cs hquote hend hslash ih =>
      apply ih.plain hquote
      rintro rfl
      cases cs with
      | nil => apply hend rfl rfl
      | cons l cs => apply hslash l cs rfl rfl

/-- A text inside of quotes is read up to the closing quote. -/
theorem stringBody_of_denotes {text contents : List Char} (h : Denotes text contents)
    (rest : List Char) :
  stringBody (text ++ '"' :: rest) = .closed contents (text ++ ['"'])
  := by
  induction h with
  | nil => rfl
  | @plain c text contents hquote hslash _ ih =>
      rw [List.cons_append, stringBody_plain hquote hslash, ih]
      rfl
  | @escape l c text contents hl _ ih =>
      simp only [List.cons_append]
      rw [stringBody_escape hl, ih]
      rfl

/-! ### Lexemes -/

/-- A text is a lexeme of a kind, with a literal. -/
inductive IsLexeme : Kind → String → List Char → Prop
  | word {w} : isWord w = true →
      IsLexeme (Kind.ofWord (String.ofList w)) (String.ofList w) w
  | number {w} : w ≠ [] → w.all Char.isDigit = true → IsLexeme .int (String.ofList w) w
  | mark {c k} : Kind.ofMark? c = some k → IsLexeme k (String.ofList [c]) [c]
  | pair {c d k} : Kind.ofPair? c d = some k → IsLexeme k (String.ofList [c, d]) [c, d]
  | string {text contents} : Denotes text contents →
      IsLexeme .string (String.ofList contents) ('"' :: (text ++ ['"']))

/-- A text is a lexeme. -/
def Legal (w : List Char) : Prop := ∃ kind literal, IsLexeme kind literal w

/-- What is taken off a text in front of which no lexeme stands, with its literal: the first
character, or a string literal up to the backslash of its first unknown escape, which is shown with
the character after it, or all of an unclosed one. -/
inductive IsStray : List Char → String → List Char → Prop
  | char {c rest} : c ≠ '"' → IsStray (c :: rest) (String.ofList [c]) [c]
  | escape {text contents rest} : Denotes text contents →
      (∀ l ∈ rest.head?, Escape.char? l = none) →
      IsStray ('"' :: (text ++ '\\' :: rest))
        (String.ofList ('"' :: (text ++ '\\' :: rest.head?.toList))) ('"' :: (text ++ ['\\']))
  | unclosed {text contents} : Denotes text contents →
      IsStray ('"' :: text) (String.ofList ('"' :: text)) ('"' :: text)

/-- A token of a kind and with a literal takes up `w` at the front of a text: the longest lexeme
there, or what is taken if there is none. -/
structure Cuts (text : List Char) (kind : Kind) (literal : String) (w : List Char) : Prop where
  ne_nil : w ≠ []
  legal : (∃ w', w' <+: text ∧ Legal w') → Longest Legal text w ∧ IsLexeme kind literal w
  stray : (¬ ∃ w', w' <+: text ∧ Legal w') → kind = .illegal ∧ IsStray text literal w

theorem IsLexeme.ne_nil {kind : Kind} {literal : String} {w : List Char}
    (h : IsLexeme kind literal w) :
  w ≠ []
  := by
  cases h with
  | word hw =>
      rintro rfl
      cases hw
  | number hne _ => apply hne
  | mark _ | pair _ | string _ => apply List.cons_ne_nil

/-- What a lexeme is can be told from its first character. -/
inductive StartsWith (c : Char) (w : List Char) : Prop
  | word : isLetter c = true → w.all isWordChar = true → StartsWith c w
  | number : isLetter c = false → c.isDigit = true → w.all Char.isDigit = true → StartsWith c w
  | string {text contents} : c = '"' → Denotes text contents → w = text ++ ['"'] → StartsWith c w
  | mark {k} : isLetter c = false → c.isDigit = false → c ≠ '"' → Kind.ofMark? c = some k →
      w = [] → StartsWith c w
  | pair {d k} : isLetter c = false → c.isDigit = false → c ≠ '"' → Kind.ofPair? c d = some k →
      w = [d] → StartsWith c w

theorem IsLexeme.startsWith {kind : Kind} {literal : String} {c : Char} {w : List Char}
    (h : IsLexeme kind literal (c :: w)) :
  StartsWith c w
  := by
  cases h with
  | word hw =>
      obtain ⟨hc, hw⟩ := Bool.and_eq_true_iff.mp hw
      exact .word hc hw
  | number _ hw =>
      obtain ⟨hc, hw⟩ := Bool.and_eq_true_iff.mp hw
      exact .number (isLetter_of_isDigit hc) hc hw
  | string ht => exact .string rfl ht rfl
  | mark hk =>
      obtain ⟨-, hletter, hdigit, hquote⟩ := Kind.first_of_mark hk
      exact .mark hletter hdigit hquote hk rfl
  | pair hk =>
      obtain ⟨-, hletter, hdigit, hquote, -⟩ := Kind.first_of_pair hk
      exact .pair hletter hdigit hquote hk rfl

/-- What is cut off a text stands in front of it. -/
theorem Cuts.front {text w : List Char} {kind : Kind} {literal : String}
    (h : Cuts text kind literal w) :
  w <+: text
  := by
  by_cases hlegal : ∃ w', w' <+: text ∧ Legal w'
  · apply (h.legal hlegal).1.front
  · cases (h.stray hlegal).2 with
    | char _ => apply List.prefix_append [_]
    | unclosed _ => apply List.prefix_refl
    | @escape t _ rest _ _ =>
        apply List.cons_prefix_cons.mpr ⟨rfl, ?_⟩
        apply (List.prefix_append_right_inj t).mpr (List.prefix_append ['\\'] rest)

/-- A lexeme that no lexeme in front of the text goes beyond is cut off it. -/
theorem cuts_of_lexeme {text w : List Char} {kind : Kind} {literal : String} (hw : w <+: text)
    (h : IsLexeme kind literal w)
    (hmost : ∀ w' k l, w' <+: text → IsLexeme k l w' → w'.length ≤ w.length) :
  Cuts text kind literal w
  where
  ne_nil := h.ne_nil
  legal _ := ⟨⟨hw, ⟨kind, literal, h⟩, fun w' hw' ⟨k, l, h'⟩ => hmost w' k l hw' h'⟩, h⟩
  stray hnone := absurd ⟨w, hw, kind, literal, h⟩ hnone

/-- A run of characters of a class is a longest one if it is all that can be taken. -/
theorem length_le_takeWhile {p : Char → Bool} {w text : List Char} (hw : w <+: text)
    (hp : w.all p = true) :
  w.length ≤ (text.takeWhile p).length
  := by
  obtain ⟨rest, rfl⟩ := hw
  rw [List.takeWhile_append_of_pos (List.all_eq_true.mp hp), List.length_append]
  apply Nat.le_add_right

theorem cuts_word {x : Char} (hx : isLetter x = true) (xs : List Char) :
  Cuts (x :: xs) (Kind.ofWord (String.ofList (x :: xs.takeWhile isWordChar)))
    (String.ofList (x :: xs.takeWhile isWordChar)) (x :: xs.takeWhile isWordChar)
  := by
  apply cuts_of_lexeme
  · apply List.cons_prefix_cons.mpr ⟨rfl, List.takeWhile_prefix _⟩
  · apply IsLexeme.word
    rw [isWord, hx, List.all_takeWhile]
    rfl
  · intro w' k l hw' h
    obtain rfl | ⟨w, rfl, hw⟩ := List.prefix_cons_iff.mp hw'
    · apply Nat.zero_le
    cases h.startsWith with
    | word _ hall => apply Nat.succ_le_succ (length_le_takeWhile hw hall)
    | number hletter | mark hletter | pair hletter =>
        rw [hx] at hletter
        cases hletter
    | string hquote =>
        subst hquote
        cases hx

theorem cuts_number {x : Char} (hx : x.isDigit = true) (xs : List Char) :
  Cuts (x :: xs) .int (String.ofList (x :: xs.takeWhile Char.isDigit))
    (x :: xs.takeWhile Char.isDigit)
  := by
  apply cuts_of_lexeme
  · apply List.cons_prefix_cons.mpr ⟨rfl, List.takeWhile_prefix _⟩
  · apply IsLexeme.number (List.cons_ne_nil _ _)
    rw [List.all_cons, hx, List.all_takeWhile]
    rfl
  · intro w' k l hw' h
    obtain rfl | ⟨w, rfl, hw⟩ := List.prefix_cons_iff.mp hw'
    · apply Nat.zero_le
    cases h.startsWith with
    | number _ _ hall => apply Nat.succ_le_succ (length_le_takeWhile hw hall)
    | word hletter =>
        rw [isLetter_of_isDigit hx] at hletter
        cases hletter
    | mark _ hdigit | pair _ hdigit =>
        rw [hx] at hdigit
        cases hdigit
    | string hquote =>
        subst hquote
        cases hx

/-- A string literal in front of a text that starts with a quote is what is read there. -/
theorem closed_of_lexeme {kind : Kind} {literal : String} {w xs : List Char} (hw : w <+: '"' :: xs)
    (h : IsLexeme kind literal w) :
  ∃ text contents, w = '"' :: text ∧ stringBody xs = .closed contents text
  := by
  obtain rfl | ⟨w, rfl, rest, rfl⟩ := List.prefix_cons_iff.mp hw
  · apply absurd rfl h.ne_nil
  cases h.startsWith with
  | @string text contents _ ht hw =>
      subst hw
      refine ⟨_, contents, rfl, ?_⟩
      rw [List.append_assoc]
      apply stringBody_of_denotes ht
  | word hletter => cases hletter
  | number _ hdigit => cases hdigit
  | mark _ _ hquote | pair _ _ hquote => apply absurd rfl hquote

theorem cuts_string (xs : List Char) :
  Cuts ('"' :: xs) (Lexeme.ofStringBody (stringBody xs)).kind
    (Lexeme.ofStringBody (stringBody xs)).literal (Lexeme.ofStringBody (stringBody xs)).text
  := by
  have hnone : ∀ {body : StringBody}, stringBody xs = body →
      (∀ contents text, body ≠ .closed contents text) →
      ¬ ∃ w', w' <+: '"' :: xs ∧ Legal w' := by
    rintro body rfl hbody ⟨w', hw', k, l, h⟩
    obtain ⟨text, contents, -, hclosed⟩ := closed_of_lexeme hw' h
    apply hbody contents text hclosed
  have hbodies := bodies_stringBody xs
  generalize hbody : stringBody xs = body at hbodies ⊢
  cases hbodies with
  | closed ht =>
      apply cuts_of_lexeme
      · apply List.cons_prefix_cons.mpr ⟨rfl, ?_⟩
        exact ⟨_, List.append_assoc ..⟩
      · exact .string ht
      · intro w' k l hw' h
        obtain ⟨text', contents', rfl, hclosed⟩ := closed_of_lexeme hw' h
        rw [hbody] at hclosed
        cases hclosed
        apply Nat.le_refl
  | badEscape ht hrest =>
      have hnone := hnone hbody nofun
      exact ⟨List.cons_ne_nil _ _, fun h => absurd h hnone, fun _ => ⟨rfl, .escape ht hrest⟩⟩
  | unclosed ht =>
      have hnone := hnone hbody nofun
      exact ⟨List.cons_ne_nil _ _, fun h => absurd h hnone, fun _ => ⟨rfl, .unclosed ht⟩⟩

/-- A lexeme in front of a text that starts with none of the others is a sign. -/
theorem sign_of_lexeme {x : Char} (hletter : isLetter x = false) (hdigit : x.isDigit = false)
    (hquote : x ≠ '"') {kind : Kind} {literal : String} {w xs : List Char} (hw : w <+: x :: xs)
    (h : IsLexeme kind literal w) :
  (w = [x] ∧ (Kind.ofMark? x).isSome) ∨ ∃ d rest, w = [x, d] ∧ xs = d :: rest
    ∧ (Kind.ofPair? x d).isSome
  := by
  obtain rfl | ⟨w, rfl, rest, rfl⟩ := List.prefix_cons_iff.mp hw
  · apply absurd rfl h.ne_nil
  cases h.startsWith with
  | mark _ _ _ hk hw =>
      subst hw
      exact .inl ⟨rfl, Option.isSome_of_mem hk⟩
  | pair _ _ _ hk hw =>
      subst hw
      exact .inr ⟨_, rest, rfl, rfl, Option.isSome_of_mem hk⟩
  | word hx =>
      rw [hletter] at hx
      cases hx
  | number _ hx =>
      rw [hdigit] at hx
      cases hx
  | string hx => apply absurd hx hquote

/-- A single character is cut off if no operator of two characters stands there. -/
theorem cuts_single {x : Char} (hletter : isLetter x = false) (hdigit : x.isDigit = false)
    (hquote : x ≠ '"') {xs : List Char} (hpair : ∀ d ∈ xs.head?, Kind.ofPair? x d = none) :
  Cuts (x :: xs) ((Kind.ofMark? x).getD .illegal) (String.ofList [x]) [x]
  := by
  have hsign : ∀ w' k l, w' <+: x :: xs → IsLexeme k l w' → w' = [x] ∧ (Kind.ofMark? x).isSome := by
    intro w' k l hw' h
    rcases sign_of_lexeme hletter hdigit hquote hw' h with h | ⟨d, rest, -, rfl, hd⟩
    · apply h
    · rw [hpair d rfl] at hd
      cases hd
  cases hmark : Kind.ofMark? x with
  | some k =>
      apply cuts_of_lexeme (List.prefix_append [x] xs) (.mark hmark)
      intro w' k l hw' h
      apply Nat.le_of_eq (congrArg List.length (hsign w' k l hw' h).1)
  | none =>
      have hnone : ¬ ∃ w', w' <+: x :: xs ∧ Legal w' := by
        rintro ⟨w', hw', k, l, h⟩
        have hsome := (hsign w' k l hw' h).2
        rw [hmark] at hsome
        cases hsome
      exact ⟨List.cons_ne_nil _ _, fun h => absurd h hnone, fun _ => ⟨rfl, .char hquote⟩⟩

theorem cuts_sign {x : Char} (hletter : isLetter x = false) (hdigit : x.isDigit = false)
    (hquote : x ≠ '"') (xs : List Char) :
  Cuts (x :: xs) (Lexeme.sign x xs).kind (Lexeme.sign x xs).literal (Lexeme.sign x xs).text
  := by
  unfold Lexeme.sign
  split
  · apply cuts_single hletter hdigit hquote
    intro d hd
    cases hd
  · rename_i d xs
    split
    · rename_i k hk
      apply cuts_of_lexeme (List.prefix_append [x, d] xs) (.pair hk)
      intro w' k l hw' h
      rcases sign_of_lexeme hletter hdigit hquote hw' h with ⟨rfl, -⟩ | ⟨_, _, rfl, -⟩
      · apply Nat.le_succ
      · apply Nat.le_refl
    · rename_i hk
      apply cuts_single hletter hdigit hquote
      rintro _ ⟨⟩
      apply hk

/-- The lexeme at the front of a text is found by longest match. -/
theorem cuts_front (x : Char) (xs : List Char) :
  Cuts (x :: xs) (Lexeme.front x xs).kind (Lexeme.front x xs).literal (Lexeme.front x xs).text
  := by
  unfold Lexeme.front
  split
  · rename_i hletter
    apply cuts_word hletter
  rename_i hletter
  split
  · rename_i hdigit
    apply cuts_number hdigit
  rename_i hdigit
  split
  · rename_i hquote
    subst hquote
    apply cuts_string
  · rename_i hquote
    exact cuts_sign (Bool.eq_false_iff.mpr hletter) (Bool.eq_false_iff.mpr hdigit) hquote xs

end ExprScript
