import ExprScript.Proofs.Token.Longest

/-!
# String literals

A string has many literals: a line feed, a carriage return or a tab can stand in a literal as it is
or be written as an escape.  Quoting a string gives the one literal in which all of them are
escapes.  What is a literal of which string does not depend on where it stands or on what follows.
-/

namespace ExprScript

namespace Escape

/-- Whether a character is a line feed, a carriage return or a tab.  It can stand in a literal as it
is, although there is an escape for it. -/
def isRaw (c : Char) : Bool := c = '\n' || c = '\r' || c = '\t'

/-- A text without line feeds, carriage returns and tabs. -/
def FullyEscaped (text : List Char) : Prop := ∀ c ∈ text, isRaw c = false

theorem fullyEscaped_cons {c : Char} {text : List Char} :
  FullyEscaped (c :: text) ↔ isRaw c = false ∧ FullyEscaped text
  := List.forall_mem_cons

/-- The two tables are inverse to each other. -/
theorem letter?_eq_some_iff {c l : Char} :
  letter? c = some l ↔ char? l = some c
  := ⟨char?_of_letter?, letter?_of_char?⟩

/-- What can stand in a literal as it is has no escape, unless it is raw. -/
theorem letter?_eq_none_iff {c : Char} (hquote : c ≠ '"') (hslash : c ≠ '\\') :
  letter? c = none ↔ isRaw c = false
  := by
  unfold letter?
  split <;> simp_all [isRaw]

/-- The letters of the escapes are not raw. -/
theorem isRaw_of_char? {c l : Char} (h : char? l = some c) :
  isRaw l = false
  := by
  unfold char? at h
  split at h
  all_goals first | decide | cases h

end Escape

/-! ### Inside of the quotes -/

/-- What is read up to a closing quote is a text that stands for the contents. -/
theorem denotes_of_closed {xs contents w : List Char} (h : stringBody xs = .closed contents w) :
  ∃ text rest, w = text ++ ['"'] ∧ xs = text ++ '"' :: rest ∧ Denotes text contents
  := by
  have hbodies := bodies_stringBody xs
  rw [h] at hbodies
  cases hbodies with
  | closed ht => exact ⟨_, _, rfl, rfl, ht⟩

/-- What is written for a text stands for the text. -/
theorem denotes_encode (s : List Char) :
  Denotes (Escape.encode s) s
  := by
  obtain ⟨text, _, hw, -, ht⟩ := denotes_of_closed (stringBody_encode s [])
  obtain rfl := List.append_cancel_right hw
  apply ht

/-- A text inside of quotes is what is written for its contents exactly when it holds nothing raw. -/
theorem Denotes.encode_eq_iff {text contents : List Char} (h : Denotes text contents) :
  Escape.encode contents = text ↔ Escape.FullyEscaped text
  := by
  induction h with
  | nil => exact iff_of_true rfl nofun
  | @plain c text contents hquote hslash _ ih =>
      rw [Escape.encode_cons, Escape.written, Escape.fullyEscaped_cons, ← ih,
        ← Escape.letter?_eq_none_iff hquote hslash]
      cases Escape.letter? c with
      | none => simp
      | some l => simp [Ne.symm hslash]
  | @escape l c text contents hl _ ih =>
      have hslash : Escape.isRaw '\\' = false := rfl
      have hletter := Escape.isRaw_of_char? hl
      rw [Escape.encode_cons, Escape.written, Escape.letter?_of_char? hl,
        Escape.fullyEscaped_cons, Escape.fullyEscaped_cons, ← ih]
      simp [hslash, hletter]

/-! ### Literals in a source text -/

/-- A text is read as a string: wherever it stands, and whatever follows, the next token is the
string, at the place of the text, and the cursor behind it is in front of what follows. -/
def ReadsAs (w : List Char) (s : String) : Prop :=
  ∀ (u : List Char) (offset : Nat) (pos : Pos), (Cursor.mk (w ++ u) offset pos).next
    = (⟨.string, s, pos⟩, ⟨u, offset + w.length, pos.after w⟩)

namespace Cursor

/-- In front of a quote there are no trivia, and what follows the quote is read. -/
theorem next_of_quote {c : Cursor} {xs : List Char} (h : c.rest = '"' :: xs) :
  c.next = (⟨(Lexeme.ofStringBody (stringBody xs)).kind,
      (Lexeme.ofStringBody (stringBody xs)).literal, c.pos⟩,
    c.skip (Lexeme.ofStringBody (stringBody xs)).text)
  := by
  have htrivia : trivia false c.rest = [] := by
    rw [h]
    apply trivia_cons_eq_nil rfl
    intro _ _ hc
    cases hc
  have hskip : c.skipTrivia = c := by
    rw [skipTrivia, htrivia]
    rfl
  unfold next
  simp only [hskip, h]
  rfl

/-- A string that is read behind a quote is that of a text up to a closing quote. -/
theorem denotes_of_next {c : Cursor} {xs : List Char} (h : c.rest = '"' :: xs)
    (hkind : c.next.1.kind = .string) :
  ∃ text, xs = text ++ '"' :: c.next.2.rest ∧ Denotes text c.next.1.literal.toList
  := by
  rw [next_of_quote h] at hkind ⊢
  cases hbody : stringBody xs with
  | closed contents w =>
      obtain ⟨text, rest, rfl, rfl, ht⟩ := denotes_of_closed hbody
      refine ⟨text, ?_, by simpa [Lexeme.ofStringBody] using ht⟩
      simp [Lexeme.ofStringBody, skip, h]
  | _ =>
      rw [hbody] at hkind
      cases hkind

end Cursor

/-- A text that stands for a string is read as the string if it is put between quotes. -/
theorem Denotes.readsAs {text : List Char} {s : String} (h : Denotes text s.toList) :
  ReadsAs ('"' :: (text ++ ['"'])) s
  := by
  intro u offset pos
  have hbody := stringBody_of_denotes h u
  have hrest : (Cursor.mk ('"' :: (text ++ ['"']) ++ u) offset pos).rest
      = '"' :: (text ++ '"' :: u) := by simp
  rw [Cursor.next_of_quote hrest, hbody]
  simp [Lexeme.ofStringBody, Cursor.skip]

theorem readsAs_quote (s : String) :
  ReadsAs (Escape.quote s).toList s
  := by
  rw [Escape.quote, String.toList_ofList]
  apply (denotes_encode s.toList).readsAs

/-- A text between quotes is the quoted string that it stands for exactly when it holds nothing
raw. -/
theorem Denotes.quote_eq_iff {text : List Char} {s : String} (h : Denotes text s.toList) :
  (Escape.quote s).toList = '"' :: (text ++ ['"'])
    ↔ Escape.FullyEscaped ('"' :: (text ++ ['"']))
  := by
  have hraw : Escape.isRaw '"' = false := rfl
  have hquotes : Escape.FullyEscaped ('"' :: (text ++ ['"'])) ↔ Escape.FullyEscaped text := by
    simp [Escape.FullyEscaped, or_imp, forall_and, hraw]
  rw [hquotes, ← h.encode_eq_iff, Escape.quote, String.toList_ofList]
  simp

theorem Escape.fullyEscaped_quote (s : String) :
  FullyEscaped (quote s).toList
  := by
  have h := (denotes_encode s.toList).quote_eq_iff
  rw [quote, String.toList_ofList] at h ⊢
  apply h.mp rfl

/-- Quoting a string and reading a literal are inverse to each other, wherever the literal stands.
So are the two tables of escapes.  A quoted string is read as the string.  When a text that starts
with a quote is read as a string, then that string is quoted without anything raw and read back, and
the quoted string is the text exactly when the text holds nothing raw. -/
theorem Escape.quoting_inverts_reading :
  (∀ c l, letter? c = some l ↔ char? l = some c)
    ∧ (∀ s, ReadsAs (quote s).toList s)
    ∧ ∀ (c : Cursor) (w u : List Char) (s : String), c.rest = w ++ u → w.head? = some '"' →
        c.next.1.kind = .string → c.next.1.literal = s → c.next.2.rest = u →
        FullyEscaped (quote s).toList ∧ ReadsAs (quote s).toList s
          ∧ ((quote s).toList = w ↔ FullyEscaped w)
  := by
  refine ⟨fun c l => letter?_eq_some_iff, readsAs_quote, ?_⟩
  intro c w u s hrest hw hkind hliteral hbehind
  obtain ⟨xs, rfl⟩ := List.head?_eq_some_iff.mp hw
  obtain ⟨text, hxs, ht⟩ := Cursor.denotes_of_next hrest hkind
  rw [hliteral] at ht
  obtain rfl : xs = text ++ ['"'] := by
    rw [hbehind, List.append_cons] at hxs
    apply List.append_cancel_right hxs
  exact ⟨fullyEscaped_quote s, readsAs_quote s, ht.quote_eq_iff⟩

/-- A literal with a raw tab, an escaped quote and an escaped backslash at its end, in front of
another quote: the string is quoted in another way. -/
theorem Escape.quoting_inverts_reading_tab :
  (Cursor.mk "\"\t\\\"\\\\\"\" 1".toList 4 ⟨2, 3⟩).next
      = (⟨.string, "\t\"\\", ⟨2, 3⟩⟩, ⟨"\" 1".toList, 11, ⟨2, 10⟩⟩)
    ∧ FullyEscaped (quote "\t\"\\").toList
    ∧ ReadsAs (quote "\t\"\\").toList "\t\"\\"
    ∧ (quote "\t\"\\").toList ≠ "\"\t\\\"\\\\\"".toList
  := by
  have hnext : (Cursor.mk "\"\t\\\"\\\\\"\" 1".toList 4 ⟨2, 3⟩).next
      = (⟨.string, "\t\"\\", ⟨2, 3⟩⟩, ⟨"\" 1".toList, 11, ⟨2, 10⟩⟩) := by decide +kernel
  obtain ⟨hescaped, hreads, hquote⟩ := quoting_inverts_reading.2.2
    ⟨"\"\t\\\"\\\\\"\" 1".toList, 4, ⟨2, 3⟩⟩ "\"\t\\\"\\\\\"".toList "\" 1".toList "\t\"\\"
    (by decide +kernel) (by decide +kernel) (by rw [hnext]) (by rw [hnext]) (by rw [hnext])
  refine ⟨hnext, hescaped, hreads, ?_⟩
  rw [Ne, hquote]
  intro h
  cases h '\t' (by decide +kernel)

end ExprScript
