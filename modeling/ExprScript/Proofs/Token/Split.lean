import ExprScript.Proofs.Token.Scan

/-!
# Texts on top of each other

When a text is followed by a new line and another text, the forms of the first text are followed by
those of the second, unless the first text holds something illegal.  A line feed ends every comment
and separates all lexemes but string literals, and those are closed if they are legal.
-/

namespace ExprScript

/-! ### Trivia -/

theorem trivia_space {c : Char} (h : isSpace c = true) (cs : List Char) :
  trivia false (c :: cs) = c :: trivia false cs
  := by
  simp only [isSpace, Bool.or_eq_true, decide_eq_true_eq] at h
  rcases h with ((rfl | rfl) | rfl) | rfl <;> rfl

/-- A text that is all trivia is followed by the trivia of the next line. -/
theorem trivia_append_of_nil {s : List Char} (u : List Char) {b : Bool}
    (h : s.drop (trivia b s).length = []) :
  trivia b (s ++ '\n' :: u) = s ++ '\n' :: trivia false u
  := by
  fun_induction trivia b s with
  | case1 b => cases b <;> rfl
  | case2 c cs ih =>
      rw [List.cons_append, trivia, ih h]
      rfl
  | case3 cs ih =>
      simp only [List.cons_append]
      rw [trivia, ih h]
  | case4 c cs _ hspace ih =>
      rw [List.cons_append, trivia_space hspace, ih h]
      rfl
  | case5 => cases h

/-- The trivia of a text that holds more do not reach the next line. -/
theorem trivia_append_of_cons {s : List Char} (u : List Char) {b : Bool} {x : Char}
    {xs : List Char} (h : s.drop (trivia b s).length = x :: xs) :
  trivia b (s ++ '\n' :: u) = trivia b s
  := by
  fun_induction trivia b s with
  | case1 b => cases h
  | case2 c cs ih => rw [List.cons_append, trivia, ih h]
  | case3 cs ih =>
      simp only [List.cons_append]
      rw [trivia, ih h]
  | case4 c cs _ hspace ih => rw [List.cons_append, trivia_space hspace, ih h]
  | case5 c cs hslash hspace =>
      apply trivia_cons_eq_nil (Bool.eq_false_iff.mpr hspace)
      intro d hd hc
      cases cs with
      | nil =>
          cases hd
          decide
      | cons e cs =>
          cases hd
          rintro rfl
          apply hslash cs hc rfl

/-! ### Lexemes -/

theorem StringBody.push_eq_closed {c : Char} {written contents text : List Char}
    {body : StringBody} (h : body.push c written = .closed contents text) :
  ∃ contents' text', body = .closed contents' text' ∧ contents = c :: contents'
    ∧ text = written ++ text'
  := by
  cases body <;> cases h
  exact ⟨_, _, rfl, rfl, rfl⟩

/-- A closed string literal is not changed by what follows. -/
theorem stringBody_append {s : List Char} (u : List Char) {contents text : List Char}
    (h : stringBody s = .closed contents text) :
  stringBody (s ++ u) = .closed contents text ∧ text.length ≤ s.length
  := by
  fun_induction stringBody s generalizing contents text with
  | case1 | case3 | case5 => cases h
  | case2 cs =>
      cases h
      simp [stringBody]
  | case4 l cs c hc ih =>
      obtain ⟨contents', text', hbody, rfl, rfl⟩ := StringBody.push_eq_closed h
      obtain ⟨happend, hlength⟩ := ih hbody
      simp only [List.cons_append]
      rw [stringBody_escape hc, happend]
      exact ⟨rfl, by simpa using hlength⟩
  | case6 c cs hquote hend hslash ih =>
      obtain ⟨contents', text', hbody, rfl, rfl⟩ := StringBody.push_eq_closed h
      obtain ⟨happend, hlength⟩ := ih hbody
      have hbackslash : c ≠ '\\' := by
        rintro rfl
        cases cs with
        | nil => apply hend rfl rfl
        | cons l cs => apply hslash l cs rfl rfl
      rw [List.cons_append, stringBody_plain hquote hbackslash, happend]
      exact ⟨rfl, by simpa using hlength⟩

theorem takeWhile_append_line {p : Char → Bool} (hp : p '\n' = false) (xs u : List Char) :
  (xs ++ '\n' :: u).takeWhile p = xs.takeWhile p
  := by
  induction xs with
  | nil => simp [hp]
  | cons x xs ih => simp only [List.cons_append, List.takeWhile_cons, ih]

theorem Lexeme.sign_append (x : Char) (xs u : List Char) :
  sign x (xs ++ '\n' :: u) = sign x xs ∧ (sign x xs).text.length ≤ xs.length + 1
  := by
  cases xs with
  | nil =>
      have hpair : Kind.ofPair? x '\n' = none := by
        unfold Kind.ofPair?
        split <;> first | rfl | contradiction
      simp [sign, hpair, plain]
  | cons d xs =>
      refine ⟨rfl, ?_⟩
      unfold sign
      dsimp only
      split <;> simp [plain]

/-- A legal lexeme at the front of a text is not changed by the next line. -/
theorem Lexeme.front_append {x : Char} {xs : List Char} (u : List Char)
    (h : (front x xs).kind ≠ .illegal) :
  front x (xs ++ '\n' :: u) = front x xs ∧ (front x xs).text.length ≤ xs.length + 1
  := by
  have htaken : ∀ p : Char → Bool, (x :: xs.takeWhile p).length ≤ xs.length + 1 := by
    intro p
    rw [List.length_cons]
    apply Nat.succ_le_succ (List.takeWhile_prefix p).length_le
  unfold front at h ⊢
  split
  · rw [takeWhile_append_line rfl]
    exact ⟨rfl, htaken isWordChar⟩
  rename_i hletter
  rw [if_neg hletter] at h
  split
  · rw [takeWhile_append_line rfl]
    exact ⟨rfl, htaken Char.isDigit⟩
  rename_i hdigit
  rw [if_neg hdigit] at h
  split
  · rename_i hquote
    rw [if_pos hquote] at h
    cases hbody : stringBody xs with
    | closed contents text =>
        obtain ⟨happend, hlength⟩ := stringBody_append ('\n' :: u) hbody
        rw [happend]
        exact ⟨rfl, Nat.succ_le_succ hlength⟩
    | _ =>
        rw [hbody] at h
        apply absurd rfl h
  · apply sign_append

/-! ### Forms -/

/-- Only spaces and comments in front of a text that starts on a line of its own are without
effect. -/
theorem forms_of_trivia {text rest : List Char}
    (h : text.drop (trivia false text).length = rest.drop (trivia false rest).length) :
  forms text = forms rest
  := by
  cases hrest : rest.drop (trivia false rest).length with
  | nil => rw [forms_eq_nil hrest, forms_eq_nil (h.trans hrest)]
  | cons x xs => rw [forms_eq_cons hrest, forms_eq_cons (h.trans hrest)]

theorem forms_ne_nil (text : List Char) :
  forms text ≠ []
  := by
  cases h : text.drop (trivia false text).length with
  | nil => simp [forms_eq_nil h]
  | cons x xs => simp [forms_eq_cons h]

/-- The forms of a text without illegal ones are followed by those of the next line. -/
theorem forms_append {s : List Char} (u : List Char) (h : ∀ f ∈ forms s, f.1 ≠ .illegal) :
  forms (s ++ '\n' :: u) = (forms s).dropLast ++ forms u
  := by
  cases hs : s.drop (trivia false s).length with
  | nil =>
      rw [forms_eq_nil hs]
      apply forms_of_trivia
      rw [trivia_append_of_nil u hs]
      simp
  | cons x xs =>
      have hlength : xs.length + 1 = s.length - (trivia false s).length := by
        rw [← List.length_drop, hs, List.length_cons]
      have hjoined : (s ++ '\n' :: u).drop (trivia false (s ++ '\n' :: u)).length
          = x :: (xs ++ '\n' :: u) := by
        rw [trivia_append_of_cons u hs, List.drop_append_of_le_length (by omega), hs]
        rfl
      have hforms := forms_eq_cons hs
      rw [hforms] at h
      have hlegal : (Lexeme.front x xs).kind ≠ .illegal := h _ List.mem_cons_self
      obtain ⟨hfront, hfits⟩ := Lexeme.front_append u hlegal
      have hpos : 0 < (Lexeme.front x xs).text.length :=
        List.length_pos_iff.mpr (Lexeme.front_text_ne_nil x xs)
      -- What follows the first lexeme is shorter, and legal as well.
      have hrest := forms_append (s := (x :: xs).drop (Lexeme.front x xs).text.length) u
        (fun f hf => h f (List.mem_cons_of_mem _ hf))
      rw [forms_eq_cons hjoined, hfront, hforms, List.dropLast_cons_of_ne_nil (forms_ne_nil _),
        List.cons_append, ← hrest, ← List.cons_append,
        List.drop_append_of_le_length (by simpa using hfits)]
termination_by s.length
decreasing_by
  simp only [List.length_drop, List.length_cons]
  omega

end ExprScript
