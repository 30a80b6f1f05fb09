import ExprScript.Proofs.Reader.Run

/-!
# Readers go forward, to what they refuse

However a reader ends, the stream it leaves is the stream it was given without some of the
first tokens.  A reader that refuses a source text stops at the token it refuses, or right behind
it.
-/

namespace ExprScript

/-- The stream without some of its first tokens. -/
structure TokenStream.Later (s s' : TokenStream) : Prop where
  ahead : s'.ahead <:+ s.ahead
  last : s'.last = s.last

namespace TokenStream.Later

variable {s s₁ s₂ : TokenStream}

theorem refl (s : TokenStream) :
  s.Later s
  := ⟨List.suffix_refl _, rfl⟩

theorem trans (h : s.Later s₁) (h' : s₁.Later s₂) :
  s.Later s₂
  := ⟨h'.ahead.trans h.ahead, h'.last.trans h.last⟩

theorem tail (s : TokenStream) :
  s.Later s.tail
  := ⟨List.tail_suffix _, rfl⟩

theorem ended (h : s.Later s₁) (hs : s.Ended) :
  s₁.Ended
  := by
  constructor
  · rw [h.last]
    apply hs.last
  · intro t ht
    apply hs.ahead t (h.ahead.subset ht)

/-- The next token of an ended stream, unless it is the end of input, is one that can be taken. -/
theorem push_tail (hs : s.Ended) {k : Kind} (hk : s.head.kind = k) (hne : k ≠ .eof) :
  s.Later (s.tail.push s.head)
  := by
  rw [← (hs.eq_push_of_kind hk hne).1]
  apply refl

end TokenStream.Later

namespace Reader

open Stateful TokenStream

variable {α β : Type} {s : TokenStream}

/-- Why reading on from `s` has stopped at `s'`: because of the next token, or because of the last
token that was taken. -/
inductive Stops (s s' : TokenStream) : ReadFailure → Prop
  | unexpected : Stops s s' (.refused (.unexpected s'.head))
  | operand : Stops s s' (.refused (.operand s'.head))
  | malformed {shape} : (∀ key, shape ≠ .duplicateKey key) →
      Stops s s' (.refused (.malformed shape (some s'.head.pos)))
  | duplicate {t} : s.Later (s'.push t) → t.kind = .string →
      Stops s s' (.refused (.malformed (.duplicateKey t.literal) (some t.pos)))
  | range {t} : s.Later (s'.push t) → t.kind = .int → maxInt < Decimal.value t.literal →
      Stops s s' (.refused (.range t.literal (some t.pos)))
  | oversized {t} : s.Later (s'.push t) → t.kind = .int → maxDigits < t.literal.length →
      Stops s s' .oversized
  | exhausted : Stops s s' .exhausted

/-- Reading on from `s` goes forward, to where it has a result or stops. -/
structure Forward (s : TokenStream) (r : EStateM.Result ReadFailure TokenStream α) : Prop where
  later : s.Later (final r)
  stops : ∀ {e s'}, r = .error e s' → Stops s s' e

/-- From every ended stream the reader goes forward. -/
def Advances (r : Reader α) : Prop := ∀ s, s.Ended → Forward s (r.run s)

theorem Stops.earlier {s₁ s₂ : TokenStream} {e : ReadFailure} (h : Stops s₁ s₂ e)
    (hs : s.Later s₁) :
  Stops s s₂ e
  := by
  cases h with
  | unexpected => exact .unexpected
  | operand => exact .operand
  | malformed hshape => exact .malformed hshape
  | duplicate ht hk => exact .duplicate (hs.trans ht) hk
  | range ht hk hv => exact .range (hs.trans ht) hk hv
  | oversized ht hk hl => exact .oversized (hs.trans ht) hk hl
  | exhausted => exact .exhausted

theorem Forward.earlier {s₁ : TokenStream} {r : EStateM.Result ReadFailure TokenStream α}
    (h : Forward s₁ r) (hs : s.Later s₁) :
  Forward s r
  := ⟨hs.trans h.later, fun he => (h.stops he).earlier hs⟩

theorem forward_ok {a : α} {s' : TokenStream} (h : s.Later s') :
  Forward s (.ok a s')
  := ⟨h, nofun⟩

theorem forward_error {e : ReadFailure} {s' : TokenStream} (h : s.Later s') (he : Stops s s' e) :
  Forward s (.error e s' : EStateM.Result ReadFailure TokenStream α)
  := by
  refine ⟨h, ?_⟩
  rintro _ _ ⟨⟩
  apply he

theorem Advances.forward {r : Reader α} (h : Advances r) (hs : s.Ended) :
  Forward s (r.run s)
  := h s hs

/-! ### Sequences -/

theorem advances_pure (a : α) :
  Advances (pure a)
  := fun s _ => forward_ok (.refl s)

theorem Advances.bind {x : Reader α} {f : α → Reader β} (hx : Advances x)
    (hf : ∀ a, Advances (f a)) :
  Advances (x >>= f)
  := by
  intro s hs
  have h := hx s hs
  cases hrun : x.run s with
  | ok a s' =>
      rw [hrun] at h
      rw [run_bind_of_ok hrun]
      apply ((hf a).forward (h.later.ended hs)).earlier h.later
  | error e s' =>
      rw [hrun] at h
      rw [run_bind_of_error hrun]
      apply forward_error h.later (h.stops rfl)

theorem advances_get {f : TokenStream → Reader α} (hf : ∀ s, Advances (f s)) :
  Advances (get >>= f)
  := fun s hs => hf s s hs

/-- What is done after a look at the next token may depend on the token. -/
theorem advances_next_bind {f : Token → Reader α}
    (hf : ∀ s, s.Ended → Forward s ((f s.head).run s)) :
  Advances (next >>= f)
  := hf

/-! ### Single tokens -/

theorem advances_next :
  Advances next
  := fun s _ => forward_ok (.refl s)

theorem advances_afterNext :
  Advances afterNext
  := fun s _ => forward_ok (.refl s)

theorem advances_take :
  Advances take
  := fun s _ => forward_ok (.tail s)

theorem advances_nextIs (k : Kind) :
  Advances (nextIs k)
  := fun s _ => forward_ok (.refl s)

theorem advances_exhausted :
  Advances (exhausted : Reader α)
  := fun s _ => forward_error (.refl s) .exhausted

theorem advances_unexpected :
  Advances (unexpected : Reader α)
  := fun s _ => forward_error (.refl s) .unexpected

theorem advances_malformed {shape : Token → Malformed}
    (h : ∀ t key, shape t ≠ .duplicateKey key) :
  Advances (malformed shape : Reader α)
  := fun s _ => forward_error (.refl s) (.malformed (h s.head))

theorem advances_require (k : Kind) :
  Advances (require k)
  := by
  apply (advances_nextIs k).bind
  intro b
  split
  · apply advances_take
  · apply advances_unexpected

theorem advances_skip (k : Kind) :
  Advances (skip k)
  := by
  apply (advances_nextIs k).bind
  intro b
  split
  · apply advances_take.bind
    intro _
    apply advances_pure
  · apply advances_pure

/-- A number is refused right behind its token. -/
theorem forward_number (hs : s.Ended) (hk : s.head.kind = .int) {f : Int → Reader α}
    (hf : ∀ n, Advances (f n)) :
  Forward s ((number s.head >>= f).run s.tail)
  := by
  have htaken : s.Later (s.tail.push s.head) := .push_tail hs hk (by decide)
  unfold number
  split
  · exact forward_error (.tail s) (.oversized htaken hk ‹_›)
  · split
    · exact forward_error (.tail s) (.range htaken hk ‹_›)
    · rw [pure_bind]
      apply ((hf _).forward ((Later.tail s).ended hs)).earlier (.tail s)

theorem advances_operandAhead :
  Advances operandAhead
  := by
  apply advances_next_bind
  intro s hs
  split
  · apply forward_error (.refl s) .operand
  · apply forward_ok (.refl s)

/-! ### Loops -/

theorem advances_upTo {close : Kind} {item : Reader α} (hitem : Advances item) :
  Advances (upTo close item)
  := by
  have hin : ∀ bound, Advances (upToIn close item bound) := by
    intro bound
    induction bound with
    | nil => apply advances_exhausted
    | cons _ bound ih =>
        apply (advances_nextIs close).bind
        intro b
        split
        · apply advances_pure
        · apply (advances_nextIs .eof).bind
          intro b
          split
          · apply advances_unexpected
          · apply hitem.bind
            intro a
            apply ih.bind
            intro rest
            apply advances_pure
  apply advances_get
  intro s
  apply hin

theorem advances_list {close : Kind} {item : List α → Reader α}
    (hitem : ∀ done, Advances (item done)) :
  Advances (list close item)
  := by
  have hin : ∀ bound done, Advances (listIn close item bound done) := by
    intro bound
    induction bound with
    | nil => exact fun _ => advances_exhausted
    | cons _ bound ih =>
        intro done
        apply (advances_nextIs close).bind
        intro b
        split
        · apply advances_pure
        · apply (hitem done).bind
          intro a
          apply (advances_nextIs .comma).bind
          intro b
          split
          · apply advances_take.bind
            intro _
            apply ih
          · apply (advances_nextIs close).bind
            intro b
            split
            · apply advances_pure
            · apply advances_malformed
              exact fun _ _ => nofun
  apply advances_get
  intro s
  apply (hin _ _).bind
  intro items
  apply (advances_require close).bind
  intro _
  apply advances_pure

theorem advances_parameter :
  Advances parameter
  := by
  apply (advances_require .ident).bind
  intro t
  apply advances_pure

section

variable {expr : Nat → Reader Expr} (hexpr : ∀ power, Advances (expr power))

include hexpr

theorem advances_entry (seen : List (String × Expr)) :
  Advances (entry expr seen)
  := by
  apply advances_next_bind
  intro s hs
  split
  · rename_i hk
    rw [run_bind_of_ok (run_take s)]
    split
    · apply forward_error (.tail s) (.duplicate (.push_tail hs hk (by decide)) hk)
    · apply Forward.earlier _ (.tail s)
      apply Advances.forward _ ((Later.tail s).ended hs)
      apply (advances_require .colon).bind
      intro _
      apply (hexpr 0).bind
      intro value
      apply advances_pure
  · apply Advances.forward _ hs
    apply advances_malformed
    exact fun _ _ => nofun

theorem advances_extend (left : Expr) (link : Link) :
  Advances (extend expr left link)
  := by
  cases link with
  | index =>
      apply advances_take.bind
      intro _
      apply (hexpr 0).bind
      intro position
      apply (advances_require .rbracket).bind
      intro _
      apply advances_pure
  | call =>
      apply advances_take.bind
      intro _
      apply (advances_list fun _ => hexpr 0).bind
      intro args
      apply advances_pure
  | binary op l r =>
      apply advances_take.bind
      intro _
      apply advances_operandAhead.bind
      intro _
      apply (hexpr r).bind
      intro right
      apply advances_pure

theorem advances_links (power : Nat) (left : Expr) :
  Advances (links expr power left)
  := by
  have hin : ∀ bound left, Advances (linksIn expr power bound left) := by
    intro bound
    induction bound with
    | nil => exact fun _ => advances_exhausted
    | cons _ bound ih =>
        intro left
        apply advances_next.bind
        intro t
        split
        · apply advances_pure
        · split
          · apply advances_pure
          · apply (advances_extend hexpr left _).bind
            intro wider
            apply ih
  apply advances_get
  intro s
  apply hin

end

/-! ### Statements and expressions -/

/-- All nested readers within a limit go forward. -/
structure AdvancesAt (limit : Nat) : Prop where
  statement : Advances (statement limit)
  block : Advances (block limit)
  expression : ∀ power, Advances (expression limit power)
  operand : Advances (operand limit)
  conditional : Advances (conditional limit)

variable {limit : Nat}

theorem advances_statement (ih : AdvancesAt limit) :
  Advances (statement (limit + 1))
  := by
  rw [statement]
  apply advances_next.bind
  intro t
  split
  · apply advances_take.bind
    intro _
    apply (advances_require .ident).bind
    intro name
    apply (advances_require .assign).bind
    intro _
    apply (ih.expression 0).bind
    intro value
    apply (advances_require .semicolon).bind
    intro _
    apply advances_pure
  · apply advances_take.bind
    intro _
    apply (ih.expression 0).bind
    intro value
    apply (advances_require .semicolon).bind
    intro _
    apply advances_pure
  · apply ih.block.bind
    intro body
    apply (advances_skip .semicolon).bind
    intro _
    apply advances_pure
  · apply (ih.expression 0).bind
    intro value
    apply (advances_skip .semicolon).bind
    intro _
    apply advances_pure

theorem advances_block (ih : AdvancesAt limit) :
  Advances (block (limit + 1))
  := by
  rw [block]
  apply (advances_require .lbrace).bind
  intro t
  apply (advances_upTo ih.statement).bind
  intro body
  apply (advances_require .rbrace).bind
  intro _
  apply advances_pure

theorem advances_expression (ih : AdvancesAt limit) (power : Nat) :
  Advances (expression (limit + 1) power)
  := by
  rw [expression]
  apply ih.operand.bind
  intro left
  apply advances_links ih.expression

theorem advances_conditional (ih : AdvancesAt limit) :
  Advances (conditional (limit + 1))
  := by
  rw [conditional]
  apply (advances_require .ifWord).bind
  intro t
  apply (ih.expression 0).bind
  intro condition
  apply ih.block.bind
  intro consequence
  apply (advances_nextIs .elseWord).bind
  intro b
  split
  · apply advances_take.bind
    intro _
    apply advances_next.bind
    intro e
    split
    · apply ih.conditional.bind
      intro nested
      apply advances_pure
    · apply ih.block.bind
      intro alternative
      apply advances_pure
  · apply advances_pure

theorem advances_operand (ih : AdvancesAt limit) :
  Advances (operand (limit + 1))
  := by
  have hatom : ∀ e : Expr, Advances (take >>= fun _ => pure e) := by
    intro e
    apply advances_take.bind
    intro _
    apply advances_pure
  rw [operand]
  apply advances_next_bind
  intro s hs
  split
  · rename_i hk
    rw [run_bind_of_ok (run_take s)]
    apply forward_number hs hk fun n => advances_pure _
  all_goals apply Advances.forward _ hs
  · apply hatom
  · apply hatom
  · apply hatom
  · apply hatom
  · apply advances_afterNext.bind
    intro t'
    split
    · apply advances_malformed
      intro _ _ h
      cases h
    · apply advances_take.bind
      intro _
      apply (ih.expression 0).bind
      intro inner
      apply (advances_require .rparen).bind
      intro _
      apply advances_pure
  · apply ih.conditional
  · apply advances_take.bind
    intro _
    apply (advances_require .lparen).bind
    intro _
    apply (advances_list fun _ => advances_parameter).bind
    intro parameters
    apply ih.block.bind
    intro body
    apply advances_pure
  · apply advances_take.bind
    intro _
    apply (advances_list fun _ => ih.expression 0).bind
    intro elements
    apply advances_pure
  · apply advances_take.bind
    intro _
    apply (advances_list (advances_entry ih.expression)).bind
    intro entries
    apply advances_pure
  · split
    · apply advances_take.bind
      intro _
      apply advances_operandAhead.bind
      intro _
      apply (ih.expression unaryPower).bind
      intro e
      apply advances_pure
    · apply advances_unexpected

theorem advancesAt (limit : Nat) :
  AdvancesAt limit
  := by
  induction limit with
  | zero =>
      constructor
      · rw [statement]
        apply advances_exhausted
      · rw [block]
        apply advances_exhausted
      · intro power
        rw [expression]
        apply advances_exhausted
      · rw [operand]
        apply advances_exhausted
      · rw [conditional]
        apply advances_exhausted
  | succ limit ih =>
      constructor
      · apply advances_statement ih
      · apply advances_block ih
      · apply advances_expression ih
      · apply advances_operand ih
      · apply advances_conditional ih

theorem advances_program (limit : Nat) :
  Advances (program limit)
  := by
  apply (advances_upTo (advancesAt limit).statement).bind
  intro ss
  apply advances_pure

end Reader

end ExprScript
