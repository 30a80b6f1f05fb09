import ExprScript.Proofs.Grammar.Complete
import ExprScript.Proofs.Reader.Limit

/-!
# The programs of the grammar

The tokens of a source text end with the end of input, which is none of the tokens before.  The
reader of programs accepts them exactly when the grammar derives them, and yields the tree of
the derivation.
-/

namespace ExprScript

/-- The tokens from a cursor end with the end of input. -/
theorem Cursor.stream_ended (c : Cursor) :
  c.stream.Ended
  := by
  fun_induction Cursor.stream c with
  | case1 c h =>
      constructor
      · apply h
      · intro t ht
        cases ht
  | case2 c h ih =>
      constructor
      · apply ih.last
      · intro t ht
        rcases List.mem_cons.mp ht with rfl | ht
        · apply h
        · apply ih.ahead t ht

/-- The tokens of a source text end with the end of input. -/
theorem TokenStream.ofSource_ended (source : String) :
  (ofSource source).Ended
  := by
  apply Cursor.stream_ended

theorem length_tokensOf (source : String) :
  (tokensOf source).length = (TokenStream.ofSource source).left + 1
  := by
  simp [tokensOf, TokenStream.tokens, TokenStream.left]

namespace Reader

open Stateful Grammar

/-- What is read as a program is derived by the grammar. -/
theorem program_sound {limit : Nat} {s s' : TokenStream} {p : Program} (hs : s.Ended)
    (h : (program limit).run s = .ok p s') :
  Derives .program s.tokens p
  := by
  unfold program at h
  rw [run_bind_eq_ok] at h
  obtain ⟨ss, _, hss, h⟩ := h
  cases h
  obtain ⟨hk, w, rfl, hw⟩ := upTo_sound (soundAt limit).statement hs hss
  have hrest : s'.ahead = [] := hs.of_prepend.ahead_eq_nil hk
  have htokens : (s'.prepend w).tokens = w ++ [s'.last] := by
    simp [TokenStream.prepend, TokenStream.tokens, hrest]
  rw [htokens]
  apply Derives.program hw hs.last

/-- What the grammar derives is read as a program, if the limit is high enough. -/
theorem program_complete {limit : Nat} {s : TokenStream} {p : Program}
    (h : Derives .program s.tokens p) (hl : 3 * s.left + 1 ≤ limit) :
  ∃ s', (program limit).run s = .ok p s'
  := by
  obtain ⟨ahead, last⟩ := s
  generalize hv : (TokenStream.mk ahead last).tokens = v at h
  cases h with
  | @program w ss z hw hz =>
      obtain ⟨rfl, hlast⟩ := List.append_inj' hv rfl
      cases hlast
      have hrun := complete hw limit .eof ⟨[], last⟩ (TokenStream.mk ahead last).bound hl
        (.inr rfl) hz (by simp [TokenStream.prepend, TokenStream.left])
      simp only [TokenStream.prepend, List.append_nil] at hrun
      have hupTo : (upTo .eof (statement limit)).run ⟨ahead, last⟩ = .ok ss ⟨[], last⟩ := by
        unfold upTo
        rw [run_bind_of_ok (EStateM.run_get _)]
        apply hrun
      refine ⟨⟨[], last⟩, ?_⟩
      rw [program, run_bind_of_ok hupTo]
      rfl

end Reader

namespace Program

open Grammar

/-- A source text is read with a result when the reader of programs has that result. -/
theorem read_eq_ok {limit : Nat} {source : String} {p : Program} :
  read limit source = .ok p
    ↔ ∃ s, (Reader.program limit).run (TokenStream.ofSource source) = .ok p s
  := by
  unfold read
  cases (Reader.program limit).run (TokenStream.ofSource source) <;> simp

theorem read_eq_error {limit : Nat} {source : String} {e : ReadFailure} :
  read limit source = .error e
    ↔ ∃ s, (Reader.program limit).run (TokenStream.ofSource source) = .error e s
  := by
  unfold read
  cases (Reader.program limit).run (TokenStream.ofSource source) <;> simp

/-- What is read from a source text is derived by the grammar, whatever the limit. -/
theorem derives_of_read {limit : Nat} {source : String} {p : Program}
    (h : read limit source = .ok p) :
  Derives .program (tokensOf source) p
  := by
  obtain ⟨s, hs⟩ := read_eq_ok.mp h
  apply Reader.program_sound (TokenStream.ofSource_ended source) hs

/-- What the grammar derives from a source text is read, within a limit of three for each
token. -/
theorem read_of_derives {limit : Nat} {source : String} {p : Program}
    (h : Derives .program (tokensOf source) p) (hl : 3 * (tokensOf source).length < limit) :
  read limit source = .ok p
  := by
  rw [length_tokensOf] at hl
  apply read_eq_ok.mpr
  apply Reader.program_complete h
  omega

/-- The program was read from tokens that end with the end of input. -/
def Parsed (p : Program) : Prop :=
  ∃ limit s s', s.Ended ∧ (Reader.program limit).run s = .ok p s'

theorem parsed_of_read {limit : Nat} {source : String} {p : Program}
    (h : read limit source = .ok p) :
  p.Parsed
  := by
  obtain ⟨s, hs⟩ := read_eq_ok.mp h
  exact ⟨limit, _, s, TokenStream.ofSource_ended source, hs⟩

theorem Parsed.derives {p : Program} (h : p.Parsed) :
  ∃ w, Derives .program w p
  := by
  obtain ⟨limit, s, s', hs, hrun⟩ := h
  exact ⟨s.tokens, Reader.program_sound hs hrun⟩

/-- Reading a source text succeeds with exactly the programs that the grammar derives from its
tokens, and never uses up a limit of three for each token. -/
theorem read_eq_ok_iff_derives (source : String) (limit : Nat)
    (hl : 3 * (tokensOf source).length < limit) :
  (∀ p, read limit source = .ok p ↔ Derives .program (tokensOf source) p)
    ∧ read limit source ≠ .error .exhausted
  := by
  constructor
  · intro p
    constructor
    · apply derives_of_read
    · intro h
      apply read_of_derives h hl
  · intro h
    obtain ⟨s, hs⟩ := read_eq_error.mp h
    rw [length_tokensOf] at hl
    apply Reader.program_copes (TokenStream.ofSource_ended source) (by omega) s hs

/-- A product is a factor of the sum around it, and the sum is an operand of a comparison. -/
theorem read_eq_ok_iff_derives_layers :
  Derives .program (tokensOf "a == 1 + b * -2")
    ⟨[.expr (some ⟨1, 1⟩) (.binary (some ⟨1, 1⟩) (.ident (some ⟨1, 1⟩) "a") .eq
      (.binary (some ⟨1, 6⟩) (.int (some ⟨1, 6⟩) 1) .add
        (.binary (some ⟨1, 10⟩) (.ident (some ⟨1, 10⟩) "b") .mul
          (.unary (some ⟨1, 14⟩) .neg (.int (some ⟨1, 15⟩) 2)))))]⟩
  := by
  apply ((read_eq_ok_iff_derives "a == 1 + b * -2" 100 (by decide +kernel)).1 _).mp
  with_unfolding_all rfl

end Program

end ExprScript
