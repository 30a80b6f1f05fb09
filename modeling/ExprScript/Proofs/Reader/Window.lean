import ExprScript.Proofs.Grammar.Program
import ExprScript.Proofs.Reader.Advance
import ExprScript.Proofs.Token.Scan

/-!
# A window on the tokens

Whatever is asked of a reader, and whether it succeeds or not, the two tokens it can look at are
two tokens of the source text that follow each other.  The window moves forward only.  A refusal is
about the token it has come to, or about the number or the key in front of that token.
-/

namespace ExprScript

open Stateful

/-! ### The tokens of a source text -/

namespace Cursor

/-- The tokens that the cursor comes to, by their number.  The end of input repeats. -/
def token (c : Cursor) : Nat → Token
  | 0 => c.next.1
  | i + 1 => c.next.2.token i

/-- The cursor does not move beyond the end of input. -/
theorem next_next_of_eof {c : Cursor} (h : c.next.1.kind = .eof) :
  c.next.2.next = c.next
  := by
  have hrest : c.skipTrivia.rest = [] := by
    cases hs : c.skipTrivia.rest with
    | nil => rfl
    | cons x xs =>
        have hkind := congrArg Prod.fst (next_of_cons hs).1
        apply absurd (hkind.symm.trans h) (Lexeme.kind_front_ne_eof x xs)
  have hstays : c.skipTrivia.skipTrivia = c.skipTrivia := by
    generalize c.skipTrivia = d at hrest
    obtain ⟨rest, offset, pos⟩ := d
    cases hrest
    rfl
  have hnext : c.next = (⟨.eof, "", c.skipTrivia.pos⟩, c.skipTrivia) := by
    rw [next]
    simp only [hrest]
  rw [hnext, next, hstays]
  simp only [hrest]

theorem token_of_eof {c : Cursor} (h : c.next.1.kind = .eof) (i : Nat) :
  c.token i = c.next.1
  := by
  induction i generalizing c with
  | zero => rfl
  | succ i ih =>
      have hnext := next_next_of_eof h
      have hagain : c.next.2.next.1.kind = .eof := by
        rw [hnext]
        apply h
      rw [token, ih hagain, hnext]

/-- The tokens are those of the stream, and then the last one again and again. -/
theorem token_eq_getD (c : Cursor) (i : Nat) :
  c.token i = c.stream.ahead[i]?.getD c.stream.last
  := by
  fun_induction Cursor.stream c generalizing i with
  | case1 c h =>
      rw [token_of_eof h]
      rfl
  | case2 c h ih =>
      cases i with
      | zero => rfl
      | succ i => apply ih

end Cursor

/-- The tokens of a source text by their number, where the end of input repeats. -/
def tokenAt (source : String) (i : Nat) : Token := (Cursor.start source).token i

namespace Reader

/-- The next two tokens are those with a number and with the number after it. -/
structure Window (source : String) (i : Nat) (s : TokenStream) : Prop where
  head : s.head = tokenAt source i
  second : s.second = tokenAt source (i + 1)

/-- What a refusal may be about when a token with a given number comes next. -/
inductive Concerns (source : String) : Nat → SourceError → Prop
  | unexpected {i} : Concerns source i (.unexpected (tokenAt source i))
  | operand {i} : Concerns source i (.operand (tokenAt source i))
  | malformed {i shape} : (∀ key, shape ≠ .duplicateKey key) →
      Concerns source i (.malformed shape (some (tokenAt source i).pos))
  | range {i} : (tokenAt source i).kind = .int →
      Concerns source (i + 1) (.range (tokenAt source i).literal (some (tokenAt source i).pos))
  | duplicate {i} : (tokenAt source i).kind = .string →
      Concerns source (i + 1)
        (.malformed (.duplicateKey (tokenAt source i).literal) (some (tokenAt source i).pos))

/-! ### What is asked of a reader -/

/-- What can be asked of a reader.  Expressions can be asked for with any power; below zero it is
as if it were zero. -/
inductive Act where
  | take
  | nextIs (k : Kind)
  | require (k : Kind)
  | expression (limit : Nat) (power : Int)
  | operand (limit : Nat)
  | statement (limit : Nat)
  | block (limit : Nat)
  | program (limit : Nat)

namespace Act

@[reducible]
def Result : Act → Type
  | .take | .require _ => Token
  | .nextIs _ => Bool
  | .expression .. | .operand _ => Expr
  | .statement _ | .block _ => Stmt
  | .program _ => Program

/-- The reader that is asked. -/
def reader : (a : Act) → Reader a.Result
  | .take => Reader.take
  | .nextIs k => Reader.nextIs k
  | .require k => Reader.require k
  | .expression limit power => Reader.expression limit power.toNat
  | .operand limit => Reader.operand limit
  | .statement limit => Reader.statement limit
  | .block limit => Reader.block limit
  | .program limit => Reader.program limit

theorem advances (a : Act) :
  Advances a.reader
  := by
  cases a with
  | take => apply advances_take
  | nextIs k => apply advances_nextIs
  | require k => apply advances_require
  | expression limit power => apply (advancesAt limit).expression
  | operand limit => apply (advancesAt limit).operand
  | statement limit => apply (advancesAt limit).statement
  | block limit => apply (advancesAt limit).block
  | program limit => apply advances_program

end Act

/-- The stream that a source text is left at when some things have been asked, one after the other,
each of which may have failed. -/
def after (source : String) (acts : List Act) : TokenStream :=
  acts.foldl (fun s a => final (a.reader.run s)) (.ofSource source)

/-- How many tokens have been taken by then. -/
def taken (source : String) (acts : List Act) : Nat :=
  (TokenStream.ofSource source).left - (after source acts).left

theorem after_concat (source : String) (acts : List Act) (a : Act) :
  after source (acts ++ [a]) = final (a.reader.run (after source acts))
  := by
  rw [after, List.foldl_append]
  rfl

/-! ### Where the window is -/

/-- What is asked for only takes tokens off the stream. -/
theorem later_foldl (acts : List Act) {s : TokenStream} (hs : s.Ended) :
  s.Later (acts.foldl (fun s a => final (a.reader.run s)) s)
  := by
  induction acts generalizing s with
  | nil => apply TokenStream.Later.refl
  | cons a acts ih =>
      have hlater := (a.advances.forward hs).later
      apply hlater.trans (ih (hlater.ended hs))

theorem later_after (source : String) (acts : List Act) :
  (TokenStream.ofSource source).Later (after source acts)
  := by
  apply later_foldl acts (TokenStream.ofSource_ended source)

/-- Later on, the tokens are those with the numbers from the number of tokens taken. -/
theorem getD_of_later {source : String} {s : TokenStream}
    (h : (TokenStream.ofSource source).Later s) (j : Nat) :
  s.ahead[j]?.getD s.last = tokenAt source ((TokenStream.ofSource source).left - s.left + j)
  := by
  obtain ⟨⟨w, hw⟩, hlast⟩ := h
  have hlength : (TokenStream.ofSource source).left - s.left = w.length := by
    rw [TokenStream.left, TokenStream.left, ← hw, List.length_append, Nat.add_sub_cancel]
  have hstream : (Cursor.start source).stream = TokenStream.ofSource source := rfl
  rw [tokenAt, Cursor.token_eq_getD, hstream, ← hw, ← hlast, hlength,
    List.getElem?_append_right (Nat.le_add_right _ _), Nat.add_sub_cancel_left]

theorem head_of_later {source : String} {s : TokenStream}
    (h : (TokenStream.ofSource source).Later s) :
  s.head = tokenAt source ((TokenStream.ofSource source).left - s.left)
  := by
  have hhead := getD_of_later h 0
  rw [← List.head?_eq_getElem?, ← List.headD_eq_head?_getD] at hhead
  apply hhead

theorem second_of_later {source : String} {s : TokenStream}
    (h : (TokenStream.ofSource source).Later s) :
  s.second = tokenAt source ((TokenStream.ofSource source).left - s.left + 1)
  := by
  have hsecond := getD_of_later h 1
  rw [← List.getElem?_tail, ← List.head?_eq_getElem?, ← List.headD_eq_head?_getD] at hsecond
  apply hsecond

/-- A token that has just been taken is the one in front of the window. -/
theorem eq_tokenAt_of_push {source : String} {s : TokenStream} {t : Token}
    (h : (TokenStream.ofSource source).Later (s.push t)) :
  ∃ i, (TokenStream.ofSource source).left - s.left = i + 1 ∧ t = tokenAt source i
  := by
  have hlength : s.left + 1 ≤ (TokenStream.ofSource source).left := h.ahead.length_le
  refine ⟨(TokenStream.ofSource source).left - (s.left + 1), by omega, ?_⟩
  apply head_of_later h

/-- What reading stops for concerns the window it has come to. -/
theorem Stops.concerns {source : String} {s s' : TokenStream} {e : SourceError}
    (h : Stops s s' (.refused e)) (hs : (TokenStream.ofSource source).Later s)
    (hs' : (TokenStream.ofSource source).Later s') :
  Concerns source ((TokenStream.ofSource source).left - s'.left) e
  := by
  cases h with
  | unexpected =>
      rw [head_of_later hs']
      apply Concerns.unexpected
  | operand =>
      rw [head_of_later hs']
      apply Concerns.operand
  | malformed hshape =>
      rw [head_of_later hs']
      apply Concerns.malformed hshape
  | duplicate ht hk =>
      obtain ⟨i, hi, rfl⟩ := eq_tokenAt_of_push (hs.trans ht)
      rw [hi]
      apply Concerns.duplicate hk
  | range ht hk _ =>
      obtain ⟨i, hi, rfl⟩ := eq_tokenAt_of_push (hs.trans ht)
      rw [hi]
      apply Concerns.range hk

/-- Whatever has been asked of a source text, the window is on two tokens that follow each other.
With what is asked next it does not move back, and a refusal concerns the window at which it
leaves the source text. -/
theorem window_on_tokens (source : String) (acts : List Act) :
  Window source (taken source acts) (after source acts)
    ∧ ∀ a : Act, taken source acts ≤ taken source (acts ++ [a])
      ∧ ∀ e s', a.reader.run (after source acts) = .error (.refused e) s' →
        s' = after source (acts ++ [a]) ∧ Concerns source (taken source (acts ++ [a])) e
  := by
  have hlater := later_after source acts
  have hended := hlater.ended (TokenStream.ofSource_ended source)
  refine ⟨⟨head_of_later hlater, second_of_later hlater⟩, ?_⟩
  intro a
  have hforward := a.advances.forward hended
  constructor
  · rw [taken, taken, after_concat]
    apply Nat.sub_le_sub_left hforward.later.ahead.length_le
  · intro e s' h
    have hs' : after source (acts ++ [a]) = s' := by rw [after_concat, h, final_error]
    refine ⟨hs'.symm, ?_⟩
    rw [taken, hs']
    apply (hforward.stops h).concerns hlater
    rw [← hs']
    apply later_after

/-- A number that is too large is refused behind it, and reading can go on there. -/
theorem window_on_tokens_behind_number :
  Window "[99999999999, x]" 2 (after "[99999999999, x]" [.statement 9])
    ∧ Concerns "[99999999999, x]" 2 (.range "99999999999" (some ⟨1, 2⟩))
  := by
  have htaken : taken "[99999999999, x]" [.statement 9] = 2 := by decide +kernel
  have hrefused : (statement 9).run (after "[99999999999, x]" [])
      = .error (.refused (.range "99999999999" (some ⟨1, 2⟩)))
          ⟨[⟨.comma, ",", ⟨1, 13⟩⟩, ⟨.ident, "x", ⟨1, 15⟩⟩, ⟨.rbracket, "]", ⟨1, 16⟩⟩],
            ⟨.eof, "", ⟨1, 17⟩⟩⟩ := by
    with_unfolding_all rfl
  have hwindow := (window_on_tokens "[99999999999, x]" [.statement 9]).1
  have hconcerns := (((window_on_tokens "[99999999999, x]" []).2 (.statement 9)).2 _ _ hrefused).2
  rw [htaken] at hwindow
  rw [List.nil_append, htaken] at hconcerns
  exact ⟨hwindow, hconcerns⟩

end Reader

end ExprScript
