import ExprScript.Proofs.Stateful
import ExprScript.Reader.Program

/-!
# What the basic readers do

A stream is `Ended` when its last token is the end of input and no token ahead of it is.  On
such a stream the next token is of any other kind only if it lies ahead, and then the stream
is that token followed by the rest.  Every basic reader is described by its run on a stream.
-/

namespace ExprScript

namespace TokenStream

/-- The stream with tokens in front of it. -/
def prepend (w : List Token) (s : TokenStream) : TokenStream := { s with ahead := w ++ s.ahead }

/-- The end of input is the last token, and no other. -/
structure Ended (s : TokenStream) : Prop where
  last : s.last.kind = .eof
  ahead : ∀ t ∈ s.ahead, t.kind ≠ .eof

@[simp]
theorem prepend_nil (s : TokenStream) :
  s.prepend [] = s
  := rfl

@[simp]
theorem prepend_cons (t : Token) (w : List Token) (s : TokenStream) :
  s.prepend (t :: w) = (s.prepend w).push t
  := rfl

theorem prepend_append (v w : List Token) (s : TokenStream) :
  s.prepend (v ++ w) = (s.prepend w).prepend v
  := by
  simp [prepend]

theorem prepend_concat (w : List Token) (t : Token) (s : TokenStream) :
  s.prepend (w ++ [t]) = (s.push t).prepend w
  := by
  apply prepend_append

@[simp]
theorem left_prepend (w : List Token) (s : TokenStream) :
  (s.prepend w).left = w.length + s.left
  := by
  simp [prepend, left]

/-- The bound of a stream is enough for as many tokens as there are. -/
theorem left_lt_length_bound (s : TokenStream) :
  s.left < s.bound.length
  := by
  apply Nat.lt_succ_self

theorem Ended.of_prepend {w : List Token} {s : TokenStream} (h : (s.prepend w).Ended) :
  s.Ended
  := by
  constructor
  · apply h.last
  · intro t ht
    apply h.ahead
    apply List.mem_append_right w ht

/-- The next token, unless it is the end of input, lies ahead. -/
theorem Ended.eq_push {s : TokenStream} (h : s.Ended) (hk : s.head.kind ≠ .eof) :
  s = s.tail.push s.head
  := by
  obtain ⟨ahead, last⟩ := s
  cases ahead with
  | nil => apply absurd h.last hk
  | cons t ts => rfl

/-- A token that is no end of input can be read off an ended stream, which is then the token
followed by an ended stream. -/
theorem Ended.eq_push_of_kind {s : TokenStream} {k : Kind} (h : s.Ended) (hk : s.head.kind = k)
    (hne : k ≠ .eof) :
  s = s.tail.push s.head ∧ s.tail.Ended
  := by
  have hs := h.eq_push (hk ▸ hne)
  rw [hs] at h
  exact ⟨hs, Ended.of_prepend (w := [s.head]) h⟩

/-- An ended stream whose next token is the end of input has no tokens ahead. -/
theorem Ended.ahead_eq_nil {s : TokenStream} (h : s.Ended) (hk : s.head.kind = .eof) :
  s.ahead = []
  := by
  obtain ⟨ahead, last⟩ := s
  cases ahead with
  | nil => rfl
  | cons t ts => apply absurd hk (h.ahead t List.mem_cons_self)

end TokenStream

namespace Reader

open Stateful

variable {α : Type} {s s' : TokenStream}

/-! ### Runs of the basic readers -/

@[simp]
theorem run_next (s : TokenStream) :
  next.run s = .ok s.head s
  := rfl

@[simp]
theorem run_afterNext (s : TokenStream) :
  afterNext.run s = .ok s.second s
  := rfl

@[simp]
theorem run_take (s : TokenStream) :
  take.run s = .ok s.head s.tail
  := rfl

@[simp]
theorem run_nextIs (k : Kind) (s : TokenStream) :
  (nextIs k).run s = .ok (decide (s.head.kind = k)) s
  := rfl

@[simp]
theorem run_exhausted (s : TokenStream) :
  (exhausted : Reader α).run s = .error .exhausted s
  := rfl

@[simp]
theorem run_refuse (e : SourceError) (s : TokenStream) :
  (refuse e : Reader α).run s = .error (.refused e) s
  := rfl

@[simp]
theorem run_unexpected (s : TokenStream) :
  (unexpected : Reader α).run s = .error (.refused (.unexpected s.head)) s
  := rfl

@[simp]
theorem run_malformed (shape : Token → Malformed) (s : TokenStream) :
  (malformed shape : Reader α).run s
    = .error (.refused (.malformed (shape s.head) (some s.head.pos))) s
  := rfl

/-- A required token is taken off the stream if it is there, and refused otherwise. -/
theorem run_require (k : Kind) (s : TokenStream) :
  (require k).run s
    = if s.head.kind = k then .ok s.head s.tail
      else .error (.refused (.unexpected s.head)) s
  := by
  by_cases h : s.head.kind = k <;> simp [require, h]

theorem run_take_push (t : Token) (s : TokenStream) :
  take.run (s.push t) = .ok t s
  := rfl

theorem run_require_push {k : Kind} {t : Token} (h : t.kind = k) (s : TokenStream) :
  (require k).run (s.push t) = .ok t s
  := by
  rw [run_require, TokenStream.head_push, if_pos h]
  rfl

/-- A token to skip is taken off the stream if it is there. -/
@[simp]
theorem run_skip (k : Kind) (s : TokenStream) :
  (skip k).run s = .ok () (if s.head.kind = k then s.tail else s)
  := by
  unfold skip
  by_cases h : s.head.kind = k
  · rw [run_bind_of_ok (run_nextIs k s)]
    simp only [h, decide_true]
    rfl
  · simp [h]

/-- An operand may be ahead, or the next token is refused. -/
theorem run_operandAhead (s : TokenStream) :
  operandAhead.run s
    = if s.head.kind.barsOperand then .error (.refused (.operand s.head)) s else .ok () s
  := by
  by_cases h : s.head.kind.barsOperand <;> simp [operandAhead, h]

/-- The value of a number token is read off its literal, if the literal is neither too long nor
too large. -/
theorem run_number_eq_ok {t : Token} {n : Int} :
  (number t).run s = .ok n s'
    ↔ t.literal.length ≤ maxDigits ∧ Decimal.value t.literal ≤ maxInt
        ∧ n = Decimal.value t.literal ∧ s' = s
  := by
  unfold number
  split
  · simp; omega
  · split
    · simp; omega
    · rw [EStateM.run_pure]
      constructor
      · rintro ⟨⟩
        exact ⟨by omega, by omega, rfl, rfl⟩
      · rintro ⟨-, -, rfl, rfl⟩
        rfl

/-! ### What goes on after a basic reader -/

variable {β : Type} {b : β}

theorem run_if_nextIs_of_eq {k : Kind} (h : s.head.kind = k) (x y : Reader β) :
  (nextIs k >>= fun b => if b = true then x else y).run s = x.run s
  := by
  rw [run_bind_of_ok (run_nextIs k s), if_pos (decide_eq_true h)]

theorem run_if_nextIs_of_ne {k : Kind} (h : s.head.kind ≠ k) (x y : Reader β) :
  (nextIs k >>= fun b => if b = true then x else y).run s = y.run s
  := by
  rw [run_bind_of_ok (run_nextIs k s), if_neg]
  intro hk
  apply h (of_decide_eq_true hk)

/-- A sequence after a required token has a result exactly when the token is there and the rest
of the sequence has the result on the rest of the stream. -/
theorem run_require_bind_eq_ok {k : Kind} {f : Token → Reader β} :
  (require k >>= f).run s = .ok b s'
    ↔ s.head.kind = k ∧ (f s.head).run s.tail = .ok b s'
  := by
  rw [EStateM.run_bind, run_require]
  by_cases h : s.head.kind = k <;> simp [h]

/-- A sequence before an operand has a result exactly when the next token does not bar an operand
and the rest of the sequence has the result. -/
theorem run_operandAhead_bind_eq_ok {f : Unit → Reader β} :
  (operandAhead >>= f).run s = .ok b s'
    ↔ s.head.kind.barsOperand = false ∧ (f ()).run s = .ok b s'
  := by
  rw [EStateM.run_bind, run_operandAhead]
  by_cases h : s.head.kind.barsOperand <;> simp [h]

end Reader

end ExprScript
