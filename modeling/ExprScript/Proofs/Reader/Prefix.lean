import ExprScript.Proofs.Reader.Joined
import ExprScript.Proofs.Token.Longest

/-!
# What is refused stays refused

Let two streams hold the same tokens up to a place where the first one goes on with the end of
input or an illegal token.  No reader takes either off a stream.  So a reader does the same on both
streams, or it comes to that place on the first one.  A text and the same text with more lines
behind it have such streams.
-/

namespace ExprScript

open Stateful

/-- The next token is one that no reader takes: the end of input or an illegal token. -/
def TokenStream.Barred (s : TokenStream) : Prop := s.head.kind = .eof ∨ s.head.kind = .illegal

namespace Kind

theorem taken_of_link {k : Kind} {link : Link} (h : k.link? = some link) :
  k ≠ .eof ∧ k ≠ .illegal
  := by
  constructor <;> rintro rfl <;> cases h

theorem taken_of_unary {k : Kind} {op : UnaryOp} (h : k.unary? = some op) :
  k ≠ .eof ∧ k ≠ .illegal
  := by
  constructor <;> rintro rfl <;> cases h

end Kind

namespace Reader

/-! ### Runs on two streams -/

section

variable (z z' : TokenStream) {α : Type}

/-- Two runs on streams that part behind the tokens `v`.  They end alike in front of some of these
tokens, or the first run ends where the streams part. -/
inductive Parallel (v : List Token) :
    EStateM.Result ReadFailure TokenStream α → EStateM.Result ReadFailure TokenStream α → Prop
  | ok {a t w} : t :: w <:+ v →
      Parallel v (.ok a (z.prepend (t :: w))) (.ok a (z'.prepend (t :: w)))
  | error {e t w} : t :: w <:+ v →
      Parallel v (.error e (z.prepend (t :: w))) (.error e (z'.prepend (t :: w)))
  | parted {r r'} : final r = z → Parallel v r r'

/-- One reader on the first stream goes as another one on the second. -/
def ParallelAt (v : List Token) (r r' : Reader α) : Prop :=
  Parallel z z' v (r.run (z.prepend v)) (r'.run (z'.prepend v))

/-- The reader goes by the tokens in front of the place where the streams part. -/
def GoesBy (r : Reader α) : Prop := ∀ v, (z.prepend v).Ended → ParallelAt z z' v r r

end

section

variable {z z' : TokenStream} {v : List Token} {α β : Type}

theorem Parallel.of_suffix {w : List Token} {r r' : EStateM.Result ReadFailure TokenStream α}
    (h : Parallel z z' w r r') (hw : w <:+ v) :
  Parallel z z' v r r'
  := by
  cases h with
  | ok ht => exact .ok (ht.trans hw)
  | error ht => exact .error (ht.trans hw)
  | parted hz => exact .parted hz

/-- Where the streams part, the first reader stays. -/
theorem ParallelAt.stays {r r' : Reader α} (h : ParallelAt z z' [] r r') :
  final (r.run z) = z
  := by
  rw [ParallelAt, TokenStream.prepend_nil] at h
  generalize r.run z = x, r'.run (z'.prepend []) = x' at h
  cases h with
  | ok ht | error ht => cases List.suffix_nil.mp ht
  | parted hz => apply hz

theorem ended_of_suffix {w : List Token} (hs : (z.prepend v).Ended) (hw : w <:+ v) :
  (z.prepend w).Ended
  := by
  obtain ⟨u, rfl⟩ := hw
  rw [TokenStream.prepend_append] at hs
  apply hs.of_prepend

/-! ### Sequences -/

theorem ParallelAt.bind {x x' : Reader α} {f f' : α → Reader β} (hx : ParallelAt z z' v x x')
    (hf : ∀ a w, w <:+ v → x.run (z.prepend v) = .ok a (z.prepend w) →
      ParallelAt z z' w (f a) (f' a)) :
  ParallelAt z z' v (x >>= f) (x' >>= f')
  := by
  rw [ParallelAt] at hx ⊢
  generalize hrun : x.run (z.prepend v) = r, hrun' : x'.run (z'.prepend v) = r' at hx
  cases hx with
  | @ok a t w hw =>
      rw [run_bind_of_ok hrun, run_bind_of_ok hrun']
      apply (hf a (t :: w) hw hrun).of_suffix hw
  | error hw =>
      rw [run_bind_of_error hrun, run_bind_of_error hrun']
      exact .error hw
  | parted hz =>
      apply Parallel.parted
      cases r with
      | ok a s =>
          cases hz
          rw [run_bind_of_ok hrun]
          apply (hf a [] (List.nil_suffix) hrun).stays
      | error e s =>
          rw [run_bind_of_error hrun]
          apply hz

theorem GoesBy.bind {x : Reader α} {f : α → Reader β} (hx : GoesBy z z' x)
    (hf : ∀ a, GoesBy z z' (f a)) :
  GoesBy z z' (x >>= f)
  := by
  intro v hs
  apply (hx v hs).bind
  intro a w hw _
  apply hf a w (ended_of_suffix hs hw)

/-- A reader that goes by the next token and leaves it goes by the tokens of either stream. -/
theorem parallelAt_of_head {r : Reader α} {g : Token → Except ReadFailure α}
    (h : ∀ s, r.run s = match g s.head with | .ok a => .ok a s | .error e => .error e s) :
  ParallelAt z z' v r r
  := by
  rw [ParallelAt, h, h]
  cases v with
  | nil =>
      apply Parallel.parted
      cases g (z.prepend []).head <;> rfl
  | cons t w =>
      simp only [TokenStream.prepend_cons, TokenStream.head_push]
      cases g t with
      | ok a => exact .ok (List.suffix_refl _)
      | error e => exact .error (List.suffix_refl _)

theorem parallelAt_pure (a : α) :
  ParallelAt z z' v (pure a) (pure a)
  := parallelAt_of_head (g := fun _ => .ok a) fun _ => rfl

theorem parallelAt_exhausted :
  ParallelAt z z' v (exhausted : Reader α) exhausted
  := parallelAt_of_head (g := fun _ => .error .exhausted) fun _ => rfl

theorem parallelAt_refuse (e : SourceError) :
  ParallelAt z z' v (refuse e : Reader α) (refuse e)
  := parallelAt_of_head (g := fun _ => .error (.refused e)) fun _ => rfl

theorem parallelAt_unexpected :
  ParallelAt z z' v (unexpected : Reader α) unexpected
  := parallelAt_of_head (g := fun t => .error (.refused (.unexpected t))) fun _ => rfl

theorem parallelAt_malformed (shape : Token → Malformed) :
  ParallelAt z z' v (malformed shape : Reader α) (malformed shape)
  := parallelAt_of_head (g := fun t => .error (.refused (.malformed (shape t) (some t.pos))))
    fun _ => rfl

theorem goesBy_pure (a : α) :
  GoesBy z z' (pure a)
  := fun _ _ => parallelAt_pure a

theorem goesBy_ite {p : Prop} [Decidable p] {r r' : Reader α} (h : GoesBy z z' r)
    (h' : GoesBy z z' r') :
  GoesBy z z' (if p then r else r')
  := by
  split
  · apply h
  · apply h'

theorem goesBy_number (t : Token) :
  GoesBy z z' (number t)
  := by
  apply goesBy_ite
  · exact fun _ _ => parallelAt_of_head (g := fun _ => .error .oversized) fun _ => rfl
  · apply goesBy_ite
    · exact fun _ _ => parallelAt_refuse _
    · apply goesBy_pure

theorem goesBy_operandAhead :
  GoesBy z z' operandAhead
  := by
  intro v _
  apply parallelAt_of_head
    (g := fun t => if t.kind.barsOperand then .error (.refused (.operand t)) else .ok ())
  intro s
  rw [run_operandAhead]
  cases s.head.kind.barsOperand <;> rfl

/-! ### Looks ahead -/

/-- What is done after a look at the next token may depend on the token. -/
theorem parallelAt_next {f f' : Token → Reader α}
    (hf : ParallelAt z z' v (f (z.prepend v).head) (f' (z.prepend v).head)) :
  ParallelAt z z' v (next >>= f) (next >>= f')
  := by
  cases v with
  | nil => exact .parted hf.stays
  | cons t w => apply hf

theorem parallelAt_nextIs {k : Kind} {f f' : Bool → Reader α}
    (hf : ∀ b, ParallelAt z z' v (f b) (f' b)) :
  ParallelAt z z' v (nextIs k >>= f) (nextIs k >>= f')
  := by
  rw [nextIs]
  simp only [bind_assoc, pure_bind]
  apply parallelAt_next
  apply hf

end

section

variable {z z' : TokenStream} (hz : z.Barred) {v : List Token} {α β : Type}

include hz

/-- A token of a kind that readers take lies in front of the place where the streams part. -/
theorem exists_cons_of_head {k : Kind} (h : (z.prepend v).head.kind = k)
    (hk : k ≠ .eof ∧ k ≠ .illegal) :
  ∃ t w, v = t :: w ∧ t.kind = k
  := by
  cases v with
  | nil =>
      rcases hz with hz | hz
      · apply absurd (h.symm.trans hz) hk.1
      · apply absurd (h.symm.trans hz) hk.2
  | cons t w => exact ⟨t, w, rfl, h⟩

theorem parallelAt_take {k : Kind} (h : (z.prepend v).head.kind = k)
    (hk : k ≠ .eof ∧ k ≠ .illegal) {f f' : Token → Reader α}
    (hf : ∀ t w, v = t :: w → ParallelAt z z' w (f t) (f' t)) :
  ParallelAt z z' v (take >>= f) (take >>= f')
  := by
  obtain ⟨t, w, rfl, -⟩ := exists_cons_of_head hz h hk
  apply (hf t w rfl).of_suffix (List.suffix_cons t w)

theorem goesBy_take {k : Kind} (h : (z.prepend v).head.kind = k) (hk : k ≠ .eof ∧ k ≠ .illegal)
    (hs : (z.prepend v).Ended) {f : Token → Reader α} (hf : ∀ t, GoesBy z z' (f t)) :
  ParallelAt z z' v (take >>= f) (take >>= f)
  := by
  apply parallelAt_take hz h hk
  rintro t w rfl
  apply hf t w (ended_of_suffix hs (List.suffix_cons t w))

/-- A token of a given kind is taken off both streams or none. -/
theorem parallelAt_ifNext {k : Kind} (hk : k ≠ .eof ∧ k ≠ .illegal) {f f' : Token → Reader α}
    {y y' : Reader α} (hf : ∀ t w, v = t :: w → ParallelAt z z' w (f t) (f' t))
    (hy : ParallelAt z z' v y y') :
  ParallelAt z z' v (nextIs k >>= fun b => if b = true then take >>= f else y)
    (nextIs k >>= fun b => if b = true then take >>= f' else y')
  := by
  rw [nextIs]
  simp only [bind_assoc, pure_bind]
  apply parallelAt_next
  simp only [decide_eq_true_eq]
  split
  · rename_i h
    apply parallelAt_take hz h hk hf
  · apply hy

theorem goesBy_ifNext {k : Kind} (hk : k ≠ .eof ∧ k ≠ .illegal) {f : Token → Reader α}
    {y : Reader α} (hf : ∀ t, GoesBy z z' (f t)) (hy : GoesBy z z' y) :
  GoesBy z z' (nextIs k >>= fun b => if b = true then take >>= f else y)
  := by
  intro v hs
  apply parallelAt_ifNext hz hk
  · rintro t w rfl
    apply hf t w (ended_of_suffix hs (List.suffix_cons t w))
  · apply hy v hs

theorem goesBy_require {k : Kind} (hk : k ≠ .eof ∧ k ≠ .illegal) :
  GoesBy z z' (require k)
  := by
  have h : GoesBy z z' (nextIs k >>= fun b => if b = true then take >>= pure else unexpected) :=
    goesBy_ifNext hz hk goesBy_pure fun _ _ => parallelAt_unexpected
  rw [bind_pure] at h
  apply h

theorem goesBy_skip {k : Kind} (hk : k ≠ .eof ∧ k ≠ .illegal) :
  GoesBy z z' (skip k)
  := by
  apply goesBy_ifNext hz hk
  · exact fun _ => goesBy_pure ()
  · apply goesBy_pure

theorem goesBy_parameter :
  GoesBy z z' parameter
  := by
  apply (goesBy_require hz (by decide)).bind
  intro t
  apply goesBy_pure

/-- A look at the token after the next one may reach beyond the place where the streams part.  Where
it does, the reader that goes on comes to that place on the first stream. -/
theorem parallelAt_afterNext {k k' : Kind} (h : (z.prepend v).head.kind = k)
    (hk : k ≠ .eof ∧ k ≠ .illegal) (hk' : k' ≠ .eof ∧ k' ≠ .illegal)
    (hs : (z.prepend v).Ended) {r f : Reader α} (hr : GoesBy z z' r) (hf : GoesBy z z' f) :
  ParallelAt z z' v (afterNext >>= fun t => if t.kind = k' then r else take >>= fun _ => f)
    (afterNext >>= fun t => if t.kind = k' then r else take >>= fun _ => f)
  := by
  obtain ⟨t, w, rfl, -⟩ := exists_cons_of_head hz h hk
  cases w with
  | nil =>
      have hne : z.head.kind ≠ k' := by
        intro h'
        obtain ⟨_, _, hnil, -⟩ := exists_cons_of_head (v := []) hz h' hk'
        cases hnil
      apply Parallel.parted
      rw [run_bind_of_ok (run_afterNext _)]
      simp only [TokenStream.second, TokenStream.prepend_cons, TokenStream.tail_push,
        TokenStream.prepend_nil, hne, if_false]
      apply (hf [] hs.of_prepend).stays
  | cons t' w =>
      change ParallelAt z z' (t :: t' :: w) (if t'.kind = k' then r else take >>= fun _ => f)
        (if t'.kind = k' then r else take >>= fun _ => f)
      split
      · apply hr _ hs
      · apply goesBy_take hz h hk hs fun _ => hf

end

/-! ### Loops -/

section

variable {z z' : TokenStream} {α : Type}

/-- A loop is bounded by more entries than there are tokens in front of the place where the streams
part.  It goes by these tokens if every round does, and leaves fewer of them to the next one. -/
theorem goesBy_loop {σ : Type} (loop : List Token → σ → Reader α)
    (hround : ∀ t t' bound bound' v c, (z.prepend v).Ended →
      (∀ w c, w <:+ v → w.length < v.length → ParallelAt z z' w (loop bound c) (loop bound' c)) →
      ParallelAt z z' v (loop (t :: bound) c) (loop (t' :: bound') c)) (c : σ) :
  GoesBy z z' (get >>= fun s => loop s.bound c)
  := by
  have hin : ∀ bound bound' v c, (z.prepend v).Ended → v.length < bound.length →
      v.length < bound'.length → ParallelAt z z' v (loop bound c) (loop bound' c) := by
    intro bound
    induction bound with
    | nil => exact fun _ _ _ _ h => absurd h (Nat.not_lt_zero _)
    | cons _ bound ih =>
        intro bound' v c hs h h'
        cases bound' with
        | nil => apply absurd h' (Nat.not_lt_zero _)
        | cons _ bound' =>
            apply hround _ _ _ _ v c hs
            intro w c hw hlength
            apply ih bound' w c (ended_of_suffix hs hw)
            · exact Nat.lt_of_lt_of_le hlength (Nat.le_of_lt_succ h)
            · exact Nat.lt_of_lt_of_le hlength (Nat.le_of_lt_succ h')
  intro v hs
  rw [ParallelAt, run_get_bind, run_get_bind]
  have hbound : ∀ s : TokenStream, v.length < (s.prepend v).bound.length := by
    intro s
    rw [TokenStream.length_bound, TokenStream.left_prepend]
    omega
  apply hin _ _ v c hs (hbound z) (hbound z')

theorem goesBy_upTo {close : Kind} {item : Reader α} (hitem : GoesBy z z' item)
    (hless : ∀ {s a s₁}, TokenStream.Ended s → item.run s = .ok a s₁ → s₁.left < s.left) :
  GoesBy z z' (upTo close item)
  := by
  refine goesBy_loop (fun bound _ => upToIn close item bound) ?_ ()
  intro _ _ bound bound' v _ hs hnext
  apply parallelAt_nextIs
  intro b
  split
  · apply parallelAt_pure
  apply parallelAt_nextIs
  intro b
  split
  · apply parallelAt_unexpected
  apply (hitem v hs).bind
  intro a w hw ha
  have hlength : w.length < v.length := by simpa using hless hs ha
  apply (hnext w () hw hlength).bind
  exact fun _ _ _ _ => parallelAt_pure _

variable (hz : z.Barred)

include hz

theorem goesBy_list {close : Kind} (hclose : close ≠ .eof ∧ close ≠ .illegal)
    {item : List α → Reader α} (hitem : ∀ done, GoesBy z z' (item done)) :
  GoesBy z z' (list close item)
  := by
  have hin : GoesBy z z' (get >>= fun s => listIn close item s.bound []) := by
    apply goesBy_loop (listIn close item)
    intro _ _ bound bound' v done hs hnext
    apply parallelAt_nextIs
    intro b
    split
    · apply parallelAt_pure
    apply (hitem done v hs).bind
    intro a w hw _
    apply parallelAt_ifNext hz (by decide)
    · rintro t w rfl
      apply hnext w (a :: done) ((List.suffix_cons t w).trans hw) hw.length_le
    · apply parallelAt_nextIs
      intro b
      split
      · apply parallelAt_pure
      · apply parallelAt_malformed
  have hclosed : ∀ items : List α, GoesBy z z' (require close >>= fun _ => pure items) := by
    intro items
    apply (goesBy_require hz hclose).bind
    intro _
    apply goesBy_pure
  have hlist := hin.bind hclosed
  rw [bind_assoc] at hlist
  apply hlist

variable {expr : Nat → Reader Expr} (hexpr : ∀ power, GoesBy z z' (expr power))

include hexpr

theorem goesBy_entry (seen : List (String × Expr)) :
  GoesBy z z' (entry expr seen)
  := by
  intro v hs
  apply parallelAt_next
  split
  · rename_i hk
    apply goesBy_take hz hk (by decide) hs
    intro _
    apply goesBy_ite
    · exact fun _ _ => parallelAt_refuse _
    · apply (goesBy_require hz (by decide)).bind
      intro _
      apply (hexpr 0).bind
      intro value
      apply goesBy_pure
  · apply parallelAt_malformed

/-- What follows a link is read behind its token. -/
theorem exists_extension (left : Expr) (link : Link) :
  ∃ r, extend expr left link = (take >>= fun _ => r) ∧ GoesBy z z' r
  := by
  cases link with
  | index =>
      refine ⟨_, rfl, ?_⟩
      apply (hexpr 0).bind
      intro position
      apply (goesBy_require hz (by decide)).bind
      intro _
      apply goesBy_pure
  | call =>
      refine ⟨_, rfl, ?_⟩
      apply (goesBy_list hz (by decide) fun _ => hexpr 0).bind
      intro args
      apply goesBy_pure
  | binary op l r =>
      refine ⟨_, rfl, ?_⟩
      apply goesBy_operandAhead.bind
      intro _
      apply (hexpr r).bind
      intro right
      apply goesBy_pure

theorem goesBy_links (power : Nat) (left : Expr) :
  GoesBy z z' (links expr power left)
  := by
  apply goesBy_loop (linksIn expr power)
  intro _ _ bound bound' v left hs hnext
  apply parallelAt_next
  split
  · apply parallelAt_pure
  rename_i link hlink
  split
  · apply parallelAt_pure
  obtain ⟨r, hr, hgoes⟩ := exists_extension hz hexpr left link
  rw [hr, bind_assoc, bind_assoc]
  apply parallelAt_take hz rfl (Kind.taken_of_link hlink)
  rintro t w rfl
  apply (hgoes w (ended_of_suffix hs (List.suffix_cons t w))).bind
  intro wider u hu _
  apply hnext u wider (hu.trans (List.suffix_cons t w)) (Nat.lt_succ_of_le hu.length_le)

end

/-! ### Statements and expressions -/

section

variable (z z' : TokenStream)

/-- All nested readers within a limit go by the tokens in front of the place where the streams
part. -/
structure GoesByAt (limit : Nat) : Prop where
  statement : GoesBy z z' (statement limit)
  block : GoesBy z z' (block limit)
  expression : ∀ power, GoesBy z z' (expression limit power)
  operand : GoesBy z z' (operand limit)
  conditional : GoesBy z z' (conditional limit)

end

section

variable {z z' : TokenStream} (hz : z.Barred) {limit : Nat}

include hz

theorem goesBy_statement (ih : GoesByAt z z' limit) :
  GoesBy z z' (statement (limit + 1))
  := by
  rw [statement]
  intro v hs
  apply parallelAt_next
  split
  · rename_i hk
    apply goesBy_take hz hk (by decide) hs
    intro _
    apply (goesBy_require hz (by decide)).bind
    intro name
    apply (goesBy_require hz (by decide)).bind
    intro _
    apply (ih.expression 0).bind
    intro value
    apply (goesBy_require hz (by decide)).bind
    intro _
    apply goesBy_pure
  · rename_i hk
    apply goesBy_take hz hk (by decide) hs
    intro _
    apply (ih.expression 0).bind
    intro value
    apply (goesBy_require hz (by decide)).bind
    intro _
    apply goesBy_pure
  · refine GoesBy.bind ih.block ?_ v hs
    intro body
    apply (goesBy_skip hz (by decide)).bind
    intro _
    apply goesBy_pure
  · refine GoesBy.bind (ih.expression 0) ?_ v hs
    intro value
    apply (goesBy_skip hz (by decide)).bind
    intro _
    apply goesBy_pure

theorem goesBy_block (ih : GoesByAt z z' limit) :
  GoesBy z z' (block (limit + 1))
  := by
  rw [block]
  apply (goesBy_require hz (by decide)).bind
  intro t
  apply (goesBy_upTo ih.statement left_lt_of_statement).bind
  intro body
  apply (goesBy_require hz (by decide)).bind
  intro _
  apply goesBy_pure

theorem goesBy_expression (ih : GoesByAt z z' limit) (power : Nat) :
  GoesBy z z' (expression (limit + 1) power)
  := by
  rw [expression]
  apply ih.operand.bind
  intro left
  apply goesBy_links hz ih.expression

theorem goesBy_conditional (ih : GoesByAt z z' limit) :
  GoesBy z z' (conditional (limit + 1))
  := by
  rw [conditional]
  apply (goesBy_require hz (by decide)).bind
  intro t
  apply (ih.expression 0).bind
  intro condition
  apply ih.block.bind
  intro consequence
  apply goesBy_ifNext hz (by decide)
  · intro _ v hs
    apply parallelAt_next
    split
    · refine GoesBy.bind ih.conditional ?_ v hs
      intro nested
      apply goesBy_pure
    · refine GoesBy.bind ih.block ?_ v hs
      intro alternative
      apply goesBy_pure
  · apply goesBy_pure

theorem goesBy_operand (ih : GoesByAt z z' limit) :
  GoesBy z z' (operand (limit + 1))
  := by
  rw [operand]
  intro v hs
  apply parallelAt_next
  split
  · rename_i hk
    apply goesBy_take hz hk (by decide) hs
    intro _
    apply (goesBy_number _).bind
    intro n
    apply goesBy_pure
  · rename_i hk
    apply goesBy_take hz hk (by decide) hs fun _ => goesBy_pure _
  · rename_i hk
    apply goesBy_take hz hk (by decide) hs fun _ => goesBy_pure _
  · rename_i hk
    apply goesBy_take hz hk (by decide) hs fun _ => goesBy_pure _
  · rename_i hk
    apply goesBy_take hz hk (by decide) hs fun _ => goesBy_pure _
  · rename_i hk
    apply parallelAt_afterNext hz hk (by decide) (by decide) hs
    · exact fun _ _ => parallelAt_malformed _
    · apply (ih.expression 0).bind
      intro inner
      apply (goesBy_require hz (by decide)).bind
      intro _
      apply goesBy_pure
  · apply ih.conditional v hs
  · rename_i hk
    apply goesBy_take hz hk (by decide) hs
    intro _
    apply (goesBy_require hz (by decide)).bind
    intro _
    apply (goesBy_list hz (by decide) fun _ => goesBy_parameter hz).bind
    intro parameters
    apply ih.block.bind
    intro body
    apply goesBy_pure
  · rename_i hk
    apply goesBy_take hz hk (by decide) hs
    intro _
    apply (goesBy_list hz (by decide) fun _ => ih.expression 0).bind
    intro elements
    apply goesBy_pure
  · rename_i hk
    apply goesBy_take hz hk (by decide) hs
    intro _
    apply (goesBy_list hz (by decide) (goesBy_entry hz ih.expression)).bind
    intro entries
    apply goesBy_pure
  · split
    · rename_i op hop
      apply goesBy_take hz rfl (Kind.taken_of_unary hop) hs
      intro _
      apply goesBy_operandAhead.bind
      intro _
      apply (ih.expression unaryPower).bind
      intro e
      apply goesBy_pure
    · apply parallelAt_unexpected

theorem goesByAt (limit : Nat) :
  GoesByAt z z' limit
  := by
  induction limit with
  | zero =>
      have hexhausted : ∀ {α : Type}, GoesBy z z' (exhausted : Reader α) :=
        fun _ _ => parallelAt_exhausted
      constructor
      · rw [statement]
        apply hexhausted
      · rw [block]
        apply hexhausted
      · intro power
        rw [expression]
        apply hexhausted
      · rw [operand]
        apply hexhausted
      · rw [conditional]
        apply hexhausted
  | succ limit ih =>
      constructor
      · apply goesBy_statement hz ih
      · apply goesBy_block hz ih
      · apply goesBy_expression hz ih
      · apply goesBy_operand hz ih
      · apply goesBy_conditional hz ih

theorem goesBy_program (limit : Nat) :
  GoesBy z z' (program limit)
  := by
  apply (goesBy_upTo (goesByAt hz limit).statement left_lt_of_statement).bind
  intro ss
  apply goesBy_pure

end

end Reader

/-! ### Texts -/

namespace Cursor

/-- The cursor with more text behind what remains. -/
def longer (c : Cursor) (more : List Char) : Cursor := { c with rest := c.rest ++ more }

theorem skip_longer {c : Cursor} {text : List Char} (h : text.length ≤ c.rest.length)
    (more : List Char) :
  (c.longer more).skip text = (c.skip text).longer more
  := by
  simp only [skip, longer, List.drop_append_of_le_length h]

/-- A token that readers take is read in the same way if there are more lines. -/
theorem next_longer {c : Cursor} (heof : c.next.1.kind ≠ .eof) (hillegal : c.next.1.kind ≠ .illegal)
    (u : List Char) :
  (c.longer ('\n' :: u)).next = (c.next.1, c.next.2.longer ('\n' :: u))
  := by
  cases h : c.skipTrivia.rest with
  | nil => simp [next, h] at heof
  | cons x xs =>
      have hdrop : c.rest.drop (trivia false c.rest).length = x :: xs := h
      have hskip : (c.longer ('\n' :: u)).skipTrivia = c.skipTrivia.longer ('\n' :: u) := by
        rw [skipTrivia, skipTrivia, ← skip_longer (trivia_front false c.rest).length_le, longer,
          trivia_append_of_cons u hdrop]
      have hrest : (c.skipTrivia.longer ('\n' :: u)).rest = x :: (xs ++ '\n' :: u) := by
        simp [longer, h]
      have hlegal : (Lexeme.front x xs).kind ≠ .illegal := by simpa [next, h] using hillegal
      obtain ⟨hfront, hfits⟩ := Lexeme.front_append u hlegal
      simp only [next, hskip, hrest, h, hfront]
      rw [skip_longer (by simpa [h] using hfits)]
      rfl

theorem head_stream (c : Cursor) :
  c.stream.head = c.next.1
  := by
  rw [stream]
  split <;> rfl

/-- The tokens of a text and of the same text with more lines part where no reader goes on. -/
theorem exists_parting (c : Cursor) (u : List Char) :
  ∃ v z z', c.stream = TokenStream.prepend v z
    ∧ (c.longer ('\n' :: u)).stream = TokenStream.prepend v z' ∧ z.Barred
  := by
  by_cases hbarred : c.stream.Barred
  · exact ⟨[], _, _, rfl, rfl, hbarred⟩
  · rw [TokenStream.Barred, head_stream, not_or] at hbarred
    obtain ⟨heof, hillegal⟩ := hbarred
    have hshorter := c.length_rest_next_lt heof
    have hnext := next_longer heof hillegal u
    obtain ⟨v, z, z', hz, hz', hbarred⟩ := exists_parting c.next.2 u
    refine ⟨c.next.1 :: v, z, z', ?_, ?_, hbarred⟩
    · rw [stream, if_neg heof, hz, TokenStream.prepend_cons]
    · rw [stream, hnext, if_neg heof, hz', TokenStream.prepend_cons]
termination_by c.rest.length

end Cursor

/-- A text that is refused at a token other than the end of input and other than an illegal one is
refused at that token, and for the same reason, whatever lines follow it. -/
theorem Program.read_refused_of_line {limit : Nat} {source : String} {e : SourceError}
    {rest : TokenStream}
    (h : (Reader.program limit).run (.ofSource source) = .error (.refused e) rest)
    (heof : rest.head.kind ≠ .eof) (hillegal : rest.head.kind ≠ .illegal) (more : String) :
  read limit (source ++ "\n" ++ more) = .error (.refused e)
    ∧ ∃ rest', (Reader.program limit).run (.ofSource (source ++ "\n" ++ more))
        = .error (.refused e) rest' ∧ rest'.head = rest.head
  := by
  obtain ⟨v, z, z', hz, hz', hbarred⟩ := (Cursor.start source).exists_parting more.toList
  have hmore : TokenStream.ofSource (source ++ "\n" ++ more) = z'.prepend v := by
    rw [← hz', TokenStream.ofSource, Cursor.start, Cursor.longer, Cursor.start]
    simp
  have hended := TokenStream.ofSource_ended source
  rw [TokenStream.ofSource, hz] at h hended
  have hgoes : Reader.GoesBy z z' (Reader.program limit) := Reader.goesBy_program hbarred limit
  have hparallel := hgoes v hended
  rw [Reader.ParallelAt, h] at hparallel
  have hrun : ∃ rest', (Reader.program limit).run (z'.prepend v) = .error (.refused e) rest'
      ∧ rest'.head = rest.head := by
    generalize (Reader.program limit).run (z'.prepend v) = r at hparallel
    cases hparallel with
    | error _ => exact ⟨_, rfl, rfl⟩
    | parted hrest =>
        cases hrest
        rcases hbarred with hkind | hkind
        · apply absurd hkind heof
        · apply absurd hkind hillegal
  rw [read, hmore]
  obtain ⟨rest', hrun, hhead⟩ := hrun
  rw [hrun]
  exact ⟨rfl, rest', rfl, hhead⟩

/-- A map with a key twice, in front of a string literal that only the next line closes. -/
theorem Program.read_refused_of_line_duplicate :
  ∃ rest, (Reader.program 20).run (.ofSource "let m = \x7b\"a\": 1, \"a\": 2\x7d; \"two")
      = .error (.refused (.malformed (.duplicateKey "a") (some ⟨1, 18⟩))) rest
    ∧ rest.head.kind = .colon
    ∧ read 20 ("let m = \x7b\"a\": 1, \"a\": 2\x7d; \"two" ++ "\n" ++ "lines\"; m")
      = .error (.refused (.malformed (.duplicateKey "a") (some ⟨1, 18⟩)))
  := by
  have hrun : ∃ rest, (Reader.program 20).run
        (.ofSource "let m = \x7b\"a\": 1, \"a\": 2\x7d; \"two")
        = .error (.refused (.malformed (.duplicateKey "a") (some ⟨1, 18⟩))) rest
      ∧ rest.head.kind = .colon :=
    ⟨_, by with_unfolding_all rfl, by with_unfolding_all rfl⟩
  obtain ⟨rest, hrun, hkind⟩ := hrun
  have heof : rest.head.kind ≠ .eof := by rw [hkind]; decide
  have hillegal : rest.head.kind ≠ .illegal := by rw [hkind]; decide
  exact ⟨rest, hrun, hkind, (read_refused_of_line hrun heof hillegal _).1⟩

end ExprScript
