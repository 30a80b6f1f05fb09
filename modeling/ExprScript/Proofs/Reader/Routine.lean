import ExprScript.Proofs.Grammar.Sound
import ExprScript.Proofs.Reader.Advance
import Mathlib.Logic.Relation

/-!
# Routines and the rounds of their loops

The five readers that are nested within each other are the routines.  A routine calls others, each
within one less than its own limit, and some of these calls are made in the rounds of a loop.  With
every result a routine has taken at least one token off the stream, and so has every round of a
loop that is followed by another one.  Along a call the number of tokens left falls, or it stays the
same and the weight of the routine falls.
-/

namespace ExprScript.Reader

open Relation Stateful Grammar

/-- The readers that call each other. -/
inductive Routine where
  | statement
  | block
  | expression (power : Nat)
  | operand
  | conditional

namespace Routine

/-- What a routine reads. -/
@[reducible]
def Result : Routine → Type
  | .statement | .block => Stmt
  | .expression _ | .operand | .conditional => Expr

/-- The reader that a routine is within a limit. -/
def reader (limit : Nat) : (r : Routine) → Reader r.Result
  | .statement => Reader.statement limit
  | .block => Reader.block limit
  | .expression power => Reader.expression limit power
  | .operand => Reader.operand limit
  | .conditional => Reader.conditional limit

/-- The weight of a routine.  A routine is heavier than those it calls before it takes a token. -/
def weight : Routine → Nat
  | .statement => 4
  | .expression _ => 3
  | .block | .operand => 2
  | .conditional => 1

end Routine

theorem Routine.weight_pos (r : Routine) :
  0 < r.weight
  := by
  cases r <;> simp [weight]

theorem Routine.weight_le (r : Routine) :
  r.weight ≤ 4
  := by
  cases r <;> simp [weight]

/-! ### Rounds -/

section

variable {α : Type}

/-- A round of the loop over items up to a closing token, from one stream to the next: it reads an
item. -/
inductive ItemRound (close : Kind) (item : Reader α) : TokenStream → TokenStream → Prop
  | intro {s a s'} : s.head.kind ≠ close → s.head.kind ≠ .eof → item.run s = .ok a s' →
      ItemRound close item s s'

/-- A round of the loop over the items of a list, from the items so far and one stream to the
next: it reads an item and the comma after it. -/
inductive ListRound (close : Kind) (item : List α → Reader α) :
    List α × TokenStream → List α × TokenStream → Prop
  | intro {done s a s'} : s.head.kind ≠ close → (item done).run s = .ok a s' →
      s'.head.kind = .comma → ListRound close item (done, s) (a :: done, s'.tail)

end

/-- A round of the loop over links, from an expression and one stream to the next: it goes on with
the expression along a link. -/
inductive LinkRound (expr : Nat → Reader Expr) (power : Nat) :
    Expr × TokenStream → Expr × TokenStream → Prop
  | intro {left s link wider s'} : s.head.kind.link? = some link → ¬ link.power < power →
      (extend expr left link).run s = .ok wider s' →
      LinkRound expr power (left, s) (wider, s')

/-! ### Calls -/

/-- In a list of expressions up to a closing token, read from one stream within a limit, one of the
expressions is read from another stream. -/
inductive Element (limit : Nat) (close : Kind) (s s' : TokenStream) : Prop
  | intro {done} :
      ReflTransGen (ListRound close fun _ => expression limit 0) ([], s) (done, s') →
      s'.head.kind ≠ close → Element limit close s s'

/-- Behind the token of a link, on one stream, an expression is read from another stream, with a
power. -/
inductive Behind (limit : Nat) : Link → TokenStream → Nat → TokenStream → Prop
  | index {s} : Behind limit .index s 0 s
  | argument {s s'} : Element limit .rparen s s' → Behind limit .call s 0 s'
  | right {op left right s} : s.head.kind.barsOperand = false →
      Behind limit (.binary op left right) s right s

/-- A routine that reads from a stream within one more than the limit at once calls another one,
which reads from another stream within the limit. -/
inductive Calls (limit : Nat) : Routine → TokenStream → Routine → TokenStream → Prop
  /- Statements -/
  | bound {s} : s.head.kind = .letWord → s.tail.head.kind = .ident →
      s.tail.tail.head.kind = .assign →
      Calls limit .statement s (.expression 0) s.tail.tail.tail
  | returned {s} : s.head.kind = .returnWord →
      Calls limit .statement s (.expression 0) s.tail
  | braces {s} : s.head.kind = .lbrace → Calls limit .statement s .block s
  | alone {s} : s.head.kind ≠ .letWord → s.head.kind ≠ .returnWord → s.head.kind ≠ .lbrace →
      Calls limit .statement s (.expression 0) s
  | body {s s'} : s.head.kind = .lbrace →
      ReflTransGen (ItemRound .rbrace (statement limit)) s.tail s' →
      s'.head.kind ≠ .rbrace → s'.head.kind ≠ .eof → Calls limit .block s .statement s'
  /- Expressions with links -/
  | first {power s} : Calls limit (.expression power) s .operand s
  | further {power s left s₁ left' s₂ link power' s'} : (operand limit).run s = .ok left s₁ →
      ReflTransGen (LinkRound (expression limit) power) (left, s₁) (left', s₂) →
      s₂.head.kind.link? = some link → ¬ link.power < power →
      Behind limit link s₂.tail power' s' →
      Calls limit (.expression power) s (.expression power') s'
  /- Operands -/
  | inner {s} : s.head.kind = .lparen → s.second.kind ≠ .rparen →
      Calls limit .operand s (.expression 0) s.tail
  | branching {s} : s.head.kind = .ifWord → Calls limit .operand s .conditional s
  | function {s parameters s'} : s.head.kind = .fnWord → s.tail.head.kind = .lparen →
      (list .rparen fun _ => parameter).run s.tail.tail = .ok parameters s' →
      Calls limit .operand s .block s'
  | element {s s'} : s.head.kind = .lbracket → Element limit .rbracket s.tail s' →
      Calls limit .operand s (.expression 0) s'
  | value {s done s'} : s.head.kind = .lbrace →
      ReflTransGen (ListRound .rbrace (entry (expression limit))) ([], s.tail) (done, s') →
      s'.head.kind = .string → s'.head.literal ∉ done.map Prod.fst →
      s'.tail.head.kind = .colon →
      Calls limit .operand s (.expression 0) s'.tail.tail
  | signed {s op} : s.head.kind.unary? = some op → s.tail.head.kind.barsOperand = false →
      Calls limit .operand s (.expression unaryPower) s.tail
  /- Conditionals -/
  | condition {s} : s.head.kind = .ifWord → Calls limit .conditional s (.expression 0) s.tail
  | consequence {s condition s'} : s.head.kind = .ifWord →
      (expression limit 0).run s.tail = .ok condition s' →
      Calls limit .conditional s .block s'
  | alternative {s condition s₁ yes s₂} : s.head.kind = .ifWord →
      (expression limit 0).run s.tail = .ok condition s₁ →
      (block limit).run s₁ = .ok yes s₂ → s₂.head.kind = .elseWord →
      s₂.tail.head.kind ≠ .ifWord → Calls limit .conditional s .block s₂.tail
  | elseIf {s condition s₁ yes s₂} : s.head.kind = .ifWord →
      (expression limit 0).run s.tail = .ok condition s₁ →
      (block limit).run s₁ = .ok yes s₂ → s₂.head.kind = .elseWord →
      s₂.tail.head.kind = .ifWord → Calls limit .conditional s .conditional s₂.tail

/-- A routine that reads from a stream, within a limit, comes to call another one, which reads from
another stream within another limit. -/
inductive Reaches : Nat → Routine → TokenStream → Nat → Routine → TokenStream → Prop
  | refl {limit r s} : Reaches limit r s limit r s
  | step {limit r s r₁ s₁ limit' r' s'} : Calls limit r s r₁ s₁ →
      Reaches limit r₁ s₁ limit' r' s' → Reaches (limit + 1) r s limit' r' s'

/-- A call of a routine is nested inside one of another routine, or of the same. -/
inductive Nests (limit : Nat) (r : Routine) (s : TokenStream) (limit' : Nat) (r' : Routine)
    (s' : TokenStream) : Prop
  | intro {r₁ s₁} : Calls limit r s r₁ s₁ → Reaches limit r₁ s₁ limit' r' s' →
      Nests limit r s limit' r' s'

/-! ### What is taken -/

/-- Reading has left fewer tokens. -/
structure Takes (s s' : TokenStream) : Prop where
  later : s.Later s'
  fewer : s'.left < s.left

variable {limit : Nat} {s s₁ s₂ s' : TokenStream}

namespace Takes

theorem of_later (h' : Takes s₁ s') (h : s.Later s₁) :
  Takes s s'
  := ⟨h.trans h'.later, Nat.lt_of_lt_of_le h'.fewer h.ahead.length_le⟩

theorem trans_later (h : Takes s s₁) (h' : s₁.Later s') :
  Takes s s'
  := ⟨h.later.trans h', Nat.lt_of_le_of_lt h'.ahead.length_le h.fewer⟩

theorem ended (h : Takes s s') (hs : s.Ended) :
  s'.Ended
  := h.later.ended hs

theorem of_prepend {w : List Token} (h : s = s'.prepend w) (hw : w ≠ []) :
  Takes s s'
  := by
  subst h
  refine ⟨⟨List.suffix_append _ _, rfl⟩, ?_⟩
  rw [TokenStream.left_prepend]
  exact Nat.lt_add_of_pos_left (List.length_pos_iff.mpr hw)

/-- Taking a token off leaves fewer, unless the input has come to its end. -/
theorem tail {k : Kind} (hs : s.Ended) (hk : s.head.kind = k) (hne : k ≠ .eof) :
  Takes s s.tail
  := by
  obtain ⟨hp, -⟩ := hs.eq_push_of_kind hk hne
  exact of_prepend (w := [s.head]) hp (List.cons_ne_nil _ _)

end Takes

/-- With every result a routine has taken at least one token. -/
theorem Routine.takes {r : Routine} {a : r.Result} (hs : s.Ended)
    (h : (r.reader limit).run s = .ok a s') :
  Takes s s'
  := by
  have hsound := soundAt limit
  cases r with
  | statement =>
      obtain ⟨_, w, hw, hd, -⟩ := hsound.statement hs h
      apply Takes.of_prepend hw (hd.ne_nil rfl)
  | block =>
      obtain ⟨w, hw, hd⟩ := hsound.block hs h
      apply Takes.of_prepend hw (hd.ne_nil rfl)
  | expression power =>
      obtain ⟨w, hw, hd, -⟩ := hsound.expression hs h
      apply Takes.of_prepend hw (hd.ne_nil rfl)
  | operand =>
      obtain ⟨w, hw, hd⟩ := hsound.operand hs h
      apply Takes.of_prepend hw (hd.ne_nil rfl)
  | conditional =>
      obtain ⟨w, hw, hd⟩ := hsound.conditional hs h
      apply Takes.of_prepend hw (hd.ne_nil rfl)

/-! ### Every round takes a token -/

theorem Advances.later {α : Type} {x : Reader α} (hx : Advances x) (hs : s.Ended) {a : α}
    (h : x.run s = .ok a s') :
  s.Later s'
  := by
  have hlater := (hx s hs).later
  rw [h] at hlater
  apply hlater

theorem ItemRound.takes {close : Kind} (hs : s.Ended)
    (h : ItemRound close (statement limit) s s') :
  Takes s s'
  := by
  obtain ⟨-, -, ha⟩ := h
  apply Routine.takes (r := .statement) hs ha

/-- Whatever the items of a list are, there is a comma after one that is followed by another. -/
theorem ListRound.takes {α : Type} {close : Kind} {item : List α → Reader α}
    (hitem : ∀ done, Advances (item done)) {x y : List α × TokenStream} (hs : x.2.Ended)
    (h : ListRound close item x y) :
  Takes x.2 y.2
  := by
  obtain ⟨-, ha, hk⟩ := h
  have hlater := (hitem _).later hs ha
  apply (Takes.tail (hlater.ended hs) hk (by decide)).of_later hlater

theorem LinkRound.takes {power : Nat} {x y : Expr × TokenStream} (hs : x.2.Ended)
    (h : LinkRound (expression limit) power x y) :
  Takes x.2 y.2
  := by
  obtain ⟨hl, -, hx⟩ := h
  obtain ⟨v, hv, hw, -⟩ := extend_sound (soundAt limit).expression hs hl hx
  apply Takes.of_prepend hw hv

/-- Rounds go forward. -/
theorem later_of_rounds {σ : Type} {round : σ → σ → Prop} (stream : σ → TokenStream)
    (hround : ∀ {x y}, (stream x).Ended → round x y → Takes (stream x) (stream y)) {x y : σ}
    (hs : (stream x).Ended) (h : ReflTransGen round x y) :
  (stream x).Later (stream y)
  := by
  induction h with
  | refl => apply TokenStream.Later.refl
  | tail _ hr ih => apply ih.trans (hround (ih.ended hs) hr).later

theorem Element.later {close : Kind} (hs : s.Ended) (h : Element limit close s s') :
  s.Later s'
  := by
  obtain ⟨hrounds, -⟩ := h
  exact later_of_rounds Prod.snd
    (ListRound.takes fun _ => (advancesAt limit).expression 0) hs hrounds

theorem Behind.later {link : Link} {power : Nat} (hs : s.Ended)
    (h : Behind limit link s power s') :
  s.Later s'
  := by
  cases h with
  | index | right _ => apply TokenStream.Later.refl
  | argument he => apply he.later hs

/-! ### Calls go down -/

theorem Calls.weight_lt {r r' : Routine} (h : Calls limit r s r' s') :
  r'.weight < r.weight + 3
  := by
  cases h <;> simp [Routine.weight]

/-- A routine calls a lighter one from its own stream, or another one when it has taken a token. -/
theorem Calls.cases {r r' : Routine} (hs : s.Ended) (h : Calls limit r s r' s') :
  (s' = s ∧ r'.weight < r.weight) ∨ Takes s s'
  := by
  have hadvances := advancesAt limit
  have htail : s.tail.Ended := (TokenStream.Later.tail s).ended hs
  cases h with
  | braces | alone | first | branching => exact .inl ⟨rfl, by simp [Routine.weight]⟩
  | bound hk =>
      right
      apply (Takes.tail hs hk (by decide)).trans_later
      apply (TokenStream.Later.tail _).trans (.tail _)
  | returned hk | inner hk | condition hk => exact .inr (Takes.tail hs hk (by decide))
  | signed hop =>
      right
      apply Takes.tail hs rfl
      intro hk
      rw [hk] at hop
      cases hop
  | body hk hrounds =>
      right
      apply (Takes.tail hs hk (by decide)).trans_later
      exact later_of_rounds id ItemRound.takes htail hrounds
  | further hleft hrounds _ _ hbehind =>
      right
      have hs₁ := Routine.takes (r := .operand) hs hleft
      have hs₂ := hs₁.trans_later (later_of_rounds Prod.snd LinkRound.takes
        (hs₁.ended hs) hrounds)
      have hs₃ := hs₂.trans_later (.tail _)
      apply hs₃.trans_later (hbehind.later (hs₃.ended hs))
  | function hk _ hparameters =>
      right
      apply (Takes.tail hs hk (by decide)).trans_later
      apply (TokenStream.Later.tail s.tail).trans
      apply (advances_list fun _ => advances_parameter).later _ hparameters
      apply (TokenStream.Later.tail s.tail).ended htail
  | element hk helement =>
      exact .inr ((Takes.tail hs hk (by decide)).trans_later (helement.later htail))
  | value hk hrounds =>
      right
      apply (Takes.tail hs hk (by decide)).trans_later
      have hlater := later_of_rounds Prod.snd
        (ListRound.takes (advances_entry hadvances.expression)) htail hrounds
      apply hlater.trans ((TokenStream.Later.tail _).trans (.tail _))
  | consequence hk hc =>
      right
      apply (Takes.tail hs hk (by decide)).trans_later
      apply (hadvances.expression 0).later htail hc
  | alternative hk hc hy | elseIf hk hc hy =>
      right
      have hs₁ := (hadvances.expression 0).later htail hc
      have hs₂ := hs₁.trans (hadvances.block.later (hs₁.ended htail) hy)
      apply (Takes.tail hs hk (by decide)).trans_later (hs₂.trans (.tail _))

/-- Along a call the tokens left become fewer, or there are as many and the routine is lighter. -/
theorem Calls.descends {r r' : Routine} (hs : s.Ended) (h : Calls limit r s r' s') :
  s.Later s' ∧ 3 * s'.left + r'.weight < 3 * s.left + r.weight
  := by
  have hweight := h.weight_lt
  rcases h.cases hs with ⟨rfl, hlighter⟩ | htakes
  · exact ⟨.refl _, Nat.add_lt_add_left hlighter _⟩
  · have hfewer := htakes.fewer
    exact ⟨htakes.later, by omega⟩

/-- Along a chain of calls, every call lowers the limit and what is left to read. -/
theorem Reaches.descends {limit' : Nat} {r r' : Routine} (hs : s.Ended)
    (h : Reaches limit r s limit' r' s') :
  s.Later s' ∧ 3 * s'.left + r'.weight + limit ≤ 3 * s.left + r.weight + limit'
  := by
  induction h with
  | refl => exact ⟨.refl _, Nat.le_refl _⟩
  | step hcall _ ih =>
      obtain ⟨hlater, hless⟩ := hcall.descends hs
      obtain ⟨hlater', hless'⟩ := ih (hlater.ended hs)
      exact ⟨hlater.trans hlater', by omega⟩

theorem Reaches.limit_le {limit' : Nat} {r r' : Routine} (h : Reaches limit r s limit' r' s') :
  limit' ≤ limit
  := by
  induction h with
  | refl => apply Nat.le_refl
  | step _ _ ih => apply Nat.le_succ_of_le ih

/-- A routine is nested only behind a token in one that is no heavier. -/
theorem Nests.left_lt {limit' : Nat} {r r' : Routine} (hs : s.Ended)
    (h : Nests limit r s limit' r' s') (hweight : r.weight ≤ r'.weight) :
  s'.left < s.left
  := by
  obtain ⟨hcall, hreaches⟩ := h
  obtain ⟨hlater, hless⟩ := hcall.descends hs
  obtain ⟨-, hless'⟩ := hreaches.descends (hlater.ended hs)
  have hlimit := hreaches.limit_le
  omega

end ExprScript.Reader
