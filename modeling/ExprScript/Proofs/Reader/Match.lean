import ExprScript.Proofs.Reader.Advance
import ExprScript.Proofs.Reader.Recast
import ExprScript.Proofs.Tree.Recast

/-!
# Readers on streams that go on

Let one stream hold the tokens of another, up to positions, and go on with further tokens where
the other one ends.  A reader does the same on both, within any larger limit as well, unless it
comes to the end of the shorter one or runs into its limit.  It may come to the end if the longer
stream ends there too.
-/

namespace ExprScript

open Stateful

namespace Reader

/-! ### Streams -/

section

variable (place : Pos → Pos) (further : TokenStream)

/-- The second stream holds the tokens of the first, and then the further ones. -/
structure Leads (s s' : TokenStream) : Prop where
  ended : s.Ended
  ahead : ∃ w, s' = further.prepend w
    ∧ w.map (Token.recast place) = s.ahead.map (Token.recast place)

/-- There is nothing further than the end of the stream. -/
def Tied (s : TokenStream) : Prop :=
  further.ahead = [] ∧ further.last.recast place = s.last.recast place

end

section

variable {place : Pos → Pos} {further s s' : TokenStream}

/-- A stream is tied if one that is later is, since they end alike. -/
theorem Tied.earlier {s₁ : TokenStream} (h : Tied place further s₁) (hs : s.Later s₁) :
  Tied place further s
  := by
  rw [Tied, ← hs.last]
  apply h

theorem Tied.later {s₁ : TokenStream} (h : Tied place further s) (hs : s.Later s₁) :
  Tied place further s₁
  := by
  rw [Tied, hs.last]
  apply h

namespace Leads

theorem head (h : Leads place further s s') (ht : s.ahead = [] → Tied place further s) :
  s.head.recast place = s'.head.recast place
  := by
  obtain ⟨-, w, rfl, hw⟩ := h
  obtain ⟨ahead, last⟩ := s
  cases ahead with
  | nil =>
      obtain ⟨hnil, hlast⟩ := ht rfl
      have hhead : further.head = further.last := by rw [TokenStream.head, hnil, List.headD_nil]
      rw [List.map_eq_nil_iff.mp hw, TokenStream.prepend_nil, hhead]
      apply hlast.symm
  | cons t ts =>
      cases w with
      | nil => cases hw
      | cons u w => apply (List.cons.inj hw).1.symm

theorem tail (h : Leads place further s s') (ht : s.ahead = [] → Tied place further s) :
  Leads place further s.tail s'.tail
  := by
  obtain ⟨hs, w, rfl, hw⟩ := h
  refine ⟨(TokenStream.Later.tail s).ended hs, w.tail, ?_, ?_⟩
  · cases w with
    | nil =>
        have hahead : s.ahead = [] := List.map_eq_nil_iff.mp hw.symm
        obtain ⟨ahead, last⟩ := further
        cases (ht hahead).1
        rfl
    | cons u w => rfl
  · rw [List.map_tail, hw]
    apply (List.map_tail ..).symm

theorem length_bound (h : Leads place further s s') :
  s.bound.length ≤ s'.bound.length
  := by
  obtain ⟨-, w, rfl, hw⟩ := h
  have hlength := congrArg List.length hw
  rw [List.length_map, List.length_map] at hlength
  simp [TokenStream.left, TokenStream.prepend, hlength]

end Leads

end

/-! ### Runs -/

section

variable (place : Pos → Pos) (further : TokenStream) {α β γ δ : Type}

/-- The run does not hit the limit, and at the end of its stream there is nothing further. -/
structure Settled (r : EStateM.Result ReadFailure TokenStream α) : Prop where
  copes : ∀ s, r ≠ .error .exhausted s
  tied : (final r).ahead = [] → Tied place further (final r)

/-- Two runs end alike: with results that have the same view or with the same failure, up to
positions, in streams one of which leads to the other. -/
inductive Corresponds (view : α → γ) :
    EStateM.Result ReadFailure TokenStream α → EStateM.Result ReadFailure TokenStream α → Prop
  | ok {a a' s s'} : view a = view a' → Leads place further s s' →
      Corresponds view (.ok a s) (.ok a' s')
  | error {e e' s s'} : e.recast place = e'.recast place → Leads place further s s' →
      Corresponds view (.error e s) (.error e' s')

/-- As long as the first reader goes without hitting its limit, the second one does the same on
any stream that the first one's leads to. -/
structure Matches (view : α → γ) (r r' : Reader α) : Prop where
  later : ∀ s : TokenStream, s.Ended → s.Later (final (r.run s))
  run : ∀ s s', Leads place further s s' → Settled place further (r.run s) →
    Corresponds place further view (r.run s) (r'.run s')

end

section

variable {place : Pos → Pos} {further s s' : TokenStream} {α β γ δ : Type} {view : α → γ}
  {view' : β → δ}

theorem Corresponds.of_ok {a : α} {r : EStateM.Result ReadFailure TokenStream α}
    (h : Corresponds place further view (.ok a s) r) :
  ∃ a' s', r = .ok a' s' ∧ view a = view a' ∧ Leads place further s s'
  := by
  cases h with
  | ok ha hs => exact ⟨_, _, rfl, ha, hs⟩

theorem Corresponds.of_error {e : ReadFailure} {r : EStateM.Result ReadFailure TokenStream α}
    (h : Corresponds place further view (.error e s) r) :
  ∃ e' s', r = .error e' s' ∧ e.recast place = e'.recast place ∧ Leads place further s s'
  := by
  cases h with
  | error he hs => exact ⟨_, _, rfl, he, hs⟩

/-- A run that goes on to a settled one is settled. -/
theorem Settled.earlier {a : α} {r : EStateM.Result ReadFailure TokenStream β}
    (h : Settled place further r) (hs : s.Later (final r)) :
  Settled place further (.ok a s : EStateM.Result ReadFailure TokenStream α)
  := by
  refine ⟨nofun, ?_⟩
  intro hahead
  apply (h.tied _).earlier hs
  apply List.suffix_nil.mp
  rw [← hahead]
  apply hs.ahead

/-! ### Sequences -/

theorem Matches.bind {x x' : Reader α} {f f' : α → Reader β} (hx : Matches place further view x x')
    (hf : ∀ a a', view a = view a' → Matches place further view' (f a) (f' a')) :
  Matches place further view' (x >>= f) (x' >>= f')
  := by
  constructor
  · intro s hs
    have hlater := hx.later s hs
    cases h : x.run s with
    | error e s₁ =>
        rw [run_bind_of_error h]
        rw [h] at hlater
        apply hlater
    | ok a s₁ =>
        rw [run_bind_of_ok h]
        rw [h] at hlater
        apply hlater.trans ((hf a a rfl).later s₁ (hlater.ended hs))
  · intro s s' hs hsettled
    have hlater := hx.later s hs.ended
    have hrun := hx.run s s' hs
    cases h : x.run s with
    | error e s₁ =>
        rw [run_bind_of_error h] at hsettled ⊢
        rw [h] at hrun
        have hsettled' : Settled place further (.error e s₁ : EStateM.Result _ _ α) :=
          ⟨by simpa using hsettled.copes, hsettled.tied⟩
        obtain ⟨e', s₁', h', he, hs₁⟩ := (hrun hsettled').of_error
        rw [run_bind_of_error h']
        exact .error he hs₁
    | ok a s₁ =>
        rw [run_bind_of_ok h] at hsettled ⊢
        rw [h] at hrun hlater
        -- What follows goes on from here, so the first part is settled too.
        have hs₁ := (hf a a rfl).later s₁ (hlater.ended hs.ended)
        obtain ⟨a', s₁', h', ha, hs₁⟩ := (hrun (hsettled.earlier hs₁)).of_ok
        rw [run_bind_of_ok h']
        apply (hf a a' ha).run s₁ s₁' hs₁ hsettled

theorem matches_pure {a a' : α} (h : view a = view a') :
  Matches place further view (pure a) (pure a')
  := ⟨fun s _ => .refl s, fun _ _ hs _ => .ok h hs⟩

/-- A result that no position enters is the same on both streams. -/
theorem Matches.bind_same {x x' : Reader α} {f f' : α → Reader β}
    (hx : Matches place further id x x') (hf : ∀ a, Matches place further view' (f a) (f' a)) :
  Matches place further view' (x >>= f) (x' >>= f')
  := by
  apply hx.bind
  intro a a' ha
  rw [← show a = a' from ha]
  apply hf

/-- A result that is not used may be anything. -/
theorem Matches.andThen {x x' : Reader α} {r r' : Reader β} (hx : Matches place further view x x')
    (hr : Matches place further view' r r') :
  Matches place further view' (x >>= fun _ => r) (x' >>= fun _ => r')
  := by
  apply hx.bind
  intro _ _ _
  apply hr

theorem matches_ite {c : Prop} [Decidable c] {r₁ r₂ r₁' r₂' : Reader α}
    (h₁ : c → Matches place further view r₁ r₁') (h₂ : ¬ c → Matches place further view r₂ r₂') :
  Matches place further view (if c then r₁ else r₂) (if c then r₁' else r₂')
  := by
  split
  · apply h₁ ‹_›
  · apply h₂ ‹_›

theorem matches_refuse {e e' : SourceError} (h : e.recast place = e'.recast place) :
  Matches place further view (refuse e) (refuse e')
  := ⟨fun s _ => .refl s, fun _ _ hs _ => .error (congrArg ReadFailure.refused h) hs⟩

/-- Nothing is said of a reader that has used up its limit. -/
theorem matches_exhausted {r : Reader α} :
  Matches place further view exhausted r
  := ⟨fun s _ => .refl s, fun s _ _ hsettled => absurd rfl (hsettled.copes s)⟩

/-! ### Single tokens -/

theorem matches_next :
  Matches place further (Token.recast place) next next
  := ⟨fun s _ => .refl s, fun _ _ hs hsettled => .ok (hs.head hsettled.tied) hs⟩

theorem matches_take :
  Matches place further (Token.recast place) take take
  := by
  refine ⟨fun s _ => .tail s, ?_⟩
  intro s s' hs hsettled
  have htied : s.ahead = [] → Tied place further s := by
    intro hnil
    apply hsettled.tied
    rw [run_take]
    simp [TokenStream.tail, hnil]
  exact .ok (hs.head htied) (hs.tail htied)

theorem matches_nextIs (k : Kind) :
  Matches place further id (nextIs k) (nextIs k)
  := by
  apply matches_next.bind
  intro t t' ht
  rw [Token.kind_of_recast ht]
  apply matches_pure rfl

theorem matches_unexpected :
  Matches place further view unexpected unexpected
  := by
  apply matches_next.bind
  intro t t' ht
  apply matches_refuse
  apply congrArg SourceError.unexpected ht

theorem matches_malformed {shape : Token → Malformed}
    (h : ∀ t t', t.recast place = t'.recast place →
      (shape t).recast place = (shape t').recast place) :
  Matches place further view (malformed shape) (malformed shape)
  := by
  apply matches_next.bind
  intro t t' ht
  apply matches_refuse
  simp only [SourceError.recast, Option.map_some, Token.pos_of_recast ht, h t t' ht]

theorem matches_require (k : Kind) :
  Matches place further (Token.recast place) (require k) (require k)
  := by
  apply (matches_nextIs k).bind_same
  intro b
  apply matches_ite
  · exact fun _ => matches_take
  · exact fun _ => matches_unexpected

theorem matches_skip (k : Kind) :
  Matches place further id (skip k) (skip k)
  := by
  apply (matches_nextIs k).bind_same
  intro b
  apply matches_ite
  · intro _
    apply matches_take.andThen
    apply matches_pure rfl
  · exact fun _ => matches_pure rfl

theorem matches_number {t t' : Token} (h : t.recast place = t'.recast place) :
  Matches place further id (number t) (number t')
  := by
  unfold number
  rw [← Token.literal_of_recast h]
  apply matches_ite
  · exact fun _ => ⟨fun s _ => .refl s, fun _ _ hs _ => .error rfl hs⟩
  · intro _
    apply matches_ite
    · intro _
      apply matches_refuse
      simp only [SourceError.recast, Option.map_some, Token.pos_of_recast h]
    · exact fun _ => matches_pure rfl

theorem matches_operandAhead :
  Matches place further id operandAhead operandAhead
  := by
  apply matches_next.bind
  intro t t' ht
  rw [Token.kind_of_recast ht]
  apply matches_ite
  · intro _
    apply matches_refuse
    apply congrArg SourceError.operand ht
  · exact fun _ => matches_pure rfl

theorem matches_parameter :
  Matches place further id parameter parameter
  := by
  apply (matches_require .ident).bind
  intro t t' ht
  apply matches_pure
  apply Token.literal_of_recast ht

/-- A look at the token after the next one may reach beyond the shorter stream.  Where it does, the
reader that goes on comes to the end of it. -/
theorem matches_afterNext {k : Kind} (hk : k ≠ .eof) {r r' f f' : Reader α}
    (hr : Matches place further view r r') (hf : Matches place further view f f') :
  Matches place further view (afterNext >>= fun t => if t.kind = k then r else take >>= fun _ => f)
    (afterNext >>= fun t => if t.kind = k then r' else take >>= fun _ => f')
  := by
  have htaken : Matches place further view (take >>= fun _ => f) (take >>= fun _ => f') :=
    matches_take.bind fun _ _ _ => hf
  constructor
  · intro s hs
    rw [run_bind_of_ok (run_afterNext s)]
    split
    · apply hr.later s hs
    · apply htaken.later s hs
  · intro s s' hs hsettled
    rw [run_bind_of_ok (run_afterNext s)] at hsettled ⊢
    rw [run_bind_of_ok (run_afterNext s')]
    have htied : s.tail.ahead = [] → Tied place further s.tail := by
      intro hnil
      have heof : s.second.kind = .eof := by
        rw [TokenStream.second, TokenStream.head, hnil]
        apply hs.ended.last
      rw [if_neg (heof ▸ hk.symm), run_bind_of_ok (run_take s)] at hsettled
      have hlater := hf.later s.tail ((TokenStream.Later.tail s).ended hs.ended)
      apply (hsettled.earlier (a := ()) hlater).tied hnil
    have hsecond : s.second.recast place = s'.second.recast place := by
      apply (hs.tail _).head htied
      intro hnil
      apply (htied _).earlier (.tail s)
      rw [TokenStream.tail, hnil, List.tail_nil]
    rw [Token.kind_of_recast hsecond] at hsettled ⊢
    apply (matches_ite (fun _ => hr) (fun _ => htaken)).run s s' hs hsettled

/-! ### Loops -/

/-- The longer stream gives the larger bound. -/
theorem matches_get {f f' : TokenStream → Reader α}
    (h : ∀ s s', s.bound.length ≤ s'.bound.length → Matches place further view (f s) (f' s')) :
  Matches place further view (get >>= f) (get >>= f')
  := by
  constructor
  · intro s hs
    apply (h s s (Nat.le_refl _)).later s hs
  · intro s s' hs hsettled
    apply (h s s' hs.length_bound).run s s' hs hsettled

theorem matches_upToIn {close : Kind} {item item' : Reader α}
    (hitem : Matches place further view item item') (bound bound' : List Token)
    (h : bound.length ≤ bound'.length) :
  Matches place further (List.map view) (upToIn close item bound) (upToIn close item' bound')
  := by
  induction bound generalizing bound' with
  | nil => apply matches_exhausted
  | cons _ bound ih =>
      cases bound' with
      | nil => cases h
      | cons _ bound' =>
          apply (matches_nextIs close).bind_same
          intro b
          apply matches_ite
          · exact fun _ => matches_pure rfl
          · intro _
            apply (matches_nextIs .eof).bind_same
            intro b
            apply matches_ite
            · exact fun _ => matches_unexpected
            · intro _
              apply hitem.bind
              intro a a' ha
              apply (ih bound' (Nat.le_of_succ_le_succ h)).bind
              intro rest rest' hrest
              apply matches_pure
              simp only [List.map_cons, ha, hrest]

theorem matches_upTo {close : Kind} {item item' : Reader α}
    (hitem : Matches place further view item item') :
  Matches place further (List.map view) (upTo close item) (upTo close item')
  := by
  apply matches_get
  intro s s'
  apply matches_upToIn hitem

theorem matches_listIn {close : Kind} {item item' : List α → Reader α}
    (hitem : ∀ done done', done.map view = done'.map view →
      Matches place further view (item done) (item' done'))
    (bound bound' : List Token) (h : bound.length ≤ bound'.length) (done done' : List α)
    (hdone : done.map view = done'.map view) :
  Matches place further (List.map view) (listIn close item bound done)
    (listIn close item' bound' done')
  := by
  induction bound generalizing bound' done done' with
  | nil => apply matches_exhausted
  | cons _ bound ih =>
      cases bound' with
      | nil => cases h
      | cons _ bound' =>
          apply (matches_nextIs close).bind_same
          intro b
          apply matches_ite
          · intro _
            apply matches_pure
            rw [List.map_reverse, hdone, List.map_reverse]
          · intro _
            apply (hitem done done' hdone).bind
            intro a a' ha
            have hmore : (a :: done).map view = (a' :: done').map view := by
              rw [List.map_cons, ha, hdone, List.map_cons]
            apply (matches_nextIs .comma).bind_same
            intro b
            apply matches_ite
            · intro _
              apply matches_take.andThen
              apply ih bound' (Nat.le_of_succ_le_succ h) _ _ hmore
            · intro _
              apply (matches_nextIs close).bind_same
              intro b
              apply matches_ite
              · intro _
                apply matches_pure
                rw [List.map_reverse, hmore, List.map_reverse]
              · intro _
                apply matches_malformed
                intro t t' ht
                simp only [Malformed.recast, ht]

theorem matches_list {close : Kind} {item item' : List α → Reader α}
    (hitem : ∀ done done', done.map view = done'.map view →
      Matches place further view (item done) (item' done')) :
  Matches place further (List.map view) (list close item) (list close item')
  := by
  apply matches_get
  intro s s' h
  apply (matches_listIn hitem _ _ h [] [] rfl).bind
  intro items items' hitems
  apply (matches_require close).andThen
  apply matches_pure hitems

end

/-! ### Expressions -/

section

variable (place : Pos → Pos)

/-- What is seen of an expression up to positions. -/
def exprView (e : Expr) : Expr := e.recast (Option.map place) true

/-- What is seen of a statement up to positions. -/
def stmtView (s : Stmt) : Stmt := s.recast (Option.map place) true

/-- What is seen of an entry of a map up to positions. -/
def entryView (p : String × Expr) : String × Expr := (p.1, exprView place p.2)

end

section

variable {place : Pos → Pos} {further : TokenStream} {expr expr' : Nat → Reader Expr}
  (hexpr : ∀ power, Matches place further (exprView place) (expr power) (expr' power))

theorem pos_of_exprView {e e' : Expr} (h : exprView place e = exprView place e') :
  e.pos.map place = e'.pos.map place
  := by
  have hpos := congrArg Expr.pos h
  rw [exprView, exprView, Expr.pos_recast, Expr.pos_recast] at hpos
  apply hpos

theorem any_key {seen seen' : List (String × Expr)}
    (h : seen.map (entryView place) = seen'.map (entryView place)) (key : String) :
  (seen.any fun p => p.1 = key) = seen'.any fun p => p.1 = key
  := by
  have hany := congrArg (List.any · fun p => decide (p.1 = key)) h
  rw [List.any_map, List.any_map] at hany
  apply hany

include hexpr

theorem matches_entry {seen seen' : List (String × Expr)}
    (h : seen.map (entryView place) = seen'.map (entryView place)) :
  Matches place further (entryView place) (entry expr seen) (entry expr' seen')
  := by
  apply matches_next.bind
  intro t t' ht
  rw [Token.kind_of_recast ht, Token.literal_of_recast ht]
  apply matches_ite
  · intro _
    apply matches_take.andThen
    rw [any_key h]
    apply matches_ite
    · intro _
      apply matches_refuse
      simp only [SourceError.recast, Option.map_some, Token.pos_of_recast ht]
    · intro _
      apply (matches_require .colon).andThen
      apply (hexpr 0).bind
      intro e e' he
      apply matches_pure
      apply congrArg (Prod.mk _) he
  · intro _
    apply matches_malformed
    intro t t' ht
    simp only [Malformed.recast, ht]

theorem matches_extend {left left' : Expr} (h : exprView place left = exprView place left')
    (link : Link) :
  Matches place further (exprView place) (extend expr left link) (extend expr' left' link)
  := by
  have hpos := pos_of_exprView h
  cases link with
  | index =>
      apply matches_take.andThen
      apply (hexpr 0).bind
      intro i i' hi
      apply (matches_require .rbracket).andThen
      apply matches_pure
      simp only [exprView, Expr.recast] at h hi ⊢
      rw [hpos, h, hi]
  | call =>
      apply matches_take.andThen
      apply (matches_list fun _ _ _ => hexpr 0).bind
      intro args args' hargs
      apply matches_pure
      simp only [exprView, Expr.recast, Expr.recastAll_eq_map] at h hargs ⊢
      rw [hpos, h]
      apply congrArg _ hargs
  | binary op l r =>
      apply matches_take.andThen
      apply matches_operandAhead.andThen
      apply (hexpr r).bind
      intro e e' he
      apply matches_pure
      simp only [exprView, Expr.recast] at h he ⊢
      rw [hpos, h, he]

theorem matches_linksIn (power : Nat) (bound bound' : List Token)
    (hbound : bound.length ≤ bound'.length) {left left' : Expr}
    (h : exprView place left = exprView place left') :
  Matches place further (exprView place) (linksIn expr power bound left)
    (linksIn expr' power bound' left')
  := by
  induction bound generalizing bound' left left' with
  | nil => apply matches_exhausted
  | cons _ bound ih =>
      cases bound' with
      | nil => cases hbound
      | cons _ bound' =>
          apply matches_next.bind
          intro t t' ht
          rw [Token.kind_of_recast ht]
          cases t'.kind.link? with
          | none => apply matches_pure h
          | some link =>
              apply matches_ite
              · exact fun _ => matches_pure h
              · intro _
                apply (matches_extend hexpr h link).bind
                intro wider wider' hwider
                apply ih bound' (Nat.le_of_succ_le_succ hbound) hwider

theorem matches_links (power : Nat) {left left' : Expr}
    (h : exprView place left = exprView place left') :
  Matches place further (exprView place) (links expr power left) (links expr' power left')
  := by
  apply matches_get
  intro s s' hbound
  apply matches_linksIn hexpr power _ _ hbound h

end

/-! ### All readers -/

/-- The readers within one limit do the same as those within another. -/
structure MatchesAt (place : Pos → Pos) (further : TokenStream) (limit limit' : Nat) : Prop where
  statement : Matches place further (stmtView place) (statement limit) (statement limit')
  block : Matches place further (stmtView place) (block limit) (block limit')
  expression : ∀ power,
    Matches place further (exprView place) (expression limit power) (expression limit' power)
  operand : Matches place further (exprView place) (operand limit) (operand limit')
  conditional : Matches place further (exprView place) (conditional limit) (conditional limit')

section

variable {place : Pos → Pos} {further : TokenStream} {limit limit' : Nat}

theorem matches_block (ih : MatchesAt place further limit limit') :
  Matches place further (stmtView place) (block (limit + 1)) (block (limit' + 1))
  := by
  rw [block, block]
  apply (matches_require .lbrace).bind
  intro t t' ht
  apply (matches_upTo ih.statement).bind
  intro ss ss' hss
  apply (matches_require .rbrace).andThen
  apply matches_pure
  simp only [stmtView, Stmt.recast, Stmt.recastAll_eq_map, Option.map_some, Token.pos_of_recast ht]
  apply congrArg _ hss

theorem matches_statement (ih : MatchesAt place further limit limit') :
  Matches place further (stmtView place) (statement (limit + 1)) (statement (limit' + 1))
  := by
  rw [statement, statement]
  apply matches_next.bind
  intro t t' ht
  have hpos := Token.pos_of_recast ht
  rw [Token.kind_of_recast ht]
  cases t'.kind with
  | letWord =>
      apply matches_take.andThen
      apply (matches_require .ident).bind
      intro n n' hn
      apply (matches_require .assign).andThen
      apply (ih.expression 0).bind
      intro e e' he
      apply (matches_require .semicolon).andThen
      apply matches_pure
      simp only [stmtView, Stmt.recast, Option.map_some, hpos, Token.literal_of_recast hn]
      apply congrArg _ he
  | returnWord =>
      apply matches_take.andThen
      apply (ih.expression 0).bind
      intro e e' he
      apply (matches_require .semicolon).andThen
      apply matches_pure
      simp only [stmtView, Stmt.recast, Option.map_some, hpos]
      apply congrArg _ he
  | lbrace =>
      apply ih.block.bind
      intro b b' hb
      apply (matches_skip .semicolon).andThen
      apply matches_pure hb
  | _ =>
      apply (ih.expression 0).bind
      intro e e' he
      apply (matches_skip .semicolon).andThen
      apply matches_pure
      simp only [stmtView, Stmt.recast, Option.map_some, hpos]
      apply congrArg _ he

theorem matches_expression (ih : MatchesAt place further limit limit') (power : Nat) :
  Matches place further (exprView place) (expression (limit + 1) power)
    (expression (limit' + 1) power)
  := by
  rw [expression, expression]
  apply ih.operand.bind
  intro left left' h
  apply matches_links ih.expression power h

theorem matches_conditional (ih : MatchesAt place further limit limit') :
  Matches place further (exprView place) (conditional (limit + 1)) (conditional (limit' + 1))
  := by
  rw [conditional, conditional]
  apply (matches_require .ifWord).bind
  intro t t' ht
  have hpos := Token.pos_of_recast ht
  apply (ih.expression 0).bind
  intro c c' hc
  apply ih.block.bind
  intro yes yes' hyes
  simp only [exprView, stmtView] at hc hyes
  apply (matches_nextIs .elseWord).bind_same
  intro b
  apply matches_ite
  · intro _
    apply matches_take.andThen
    apply matches_next.bind
    intro i i' hi
    rw [Token.kind_of_recast hi]
    apply matches_ite
    · intro _
      apply ih.conditional.bind
      intro no no' hno
      apply matches_pure
      simp only [exprView] at hno
      simp only [exprView, Expr.recast, Stmt.recastElse, Stmt.recast, Option.map_some, hpos, hc,
        hyes, hno, Token.pos_of_recast hi]
    · intro _
      apply ih.block.bind
      intro no no' hno
      apply matches_pure
      simp only [stmtView] at hno
      simp only [exprView, Expr.recast, Stmt.recastElse, Option.map_some, hpos, hc, hyes, hno]
  · intro _
    apply matches_pure
    simp only [exprView, Expr.recast, Stmt.recastElse, Option.map_some, hpos, hc, hyes]

theorem matches_operand (ih : MatchesAt place further limit limit') :
  Matches place further (exprView place) (operand (limit + 1)) (operand (limit' + 1))
  := by
  rw [operand, operand]
  apply matches_next.bind
  intro t t' ht
  have hpos := Token.pos_of_recast ht
  have hliteral := Token.literal_of_recast ht
  have hatom : ∀ e e' : Expr, exprView place e = exprView place e' →
      Matches place further (exprView place) (take >>= fun _ => pure e)
        (take >>= fun _ => pure e') := by
    intro e e' he
    apply matches_take.andThen
    apply matches_pure he
  have hsigned : ∀ op : UnaryOp, Matches place further (exprView place)
      (take >>= fun _ => operandAhead >>= fun _ => expression limit unaryPower >>= fun e =>
        pure (.unary (some t.pos) op e))
      (take >>= fun _ => operandAhead >>= fun _ => expression limit' unaryPower >>= fun e =>
        pure (.unary (some t'.pos) op e)) := by
    intro op
    apply matches_take.andThen
    apply matches_operandAhead.andThen
    apply (ih.expression unaryPower).bind
    intro e e' he
    apply matches_pure
    simp only [exprView] at he
    simp only [exprView, Expr.recast, Option.map_some, hpos, he]
  rw [Token.kind_of_recast ht]
  cases t'.kind with
  | int =>
      apply matches_take.andThen
      apply (matches_number ht).bind_same
      intro n
      apply matches_pure
      simp only [exprView, Expr.recast, Option.map_some, hpos]
  | trueWord | falseWord =>
      apply hatom
      simp only [exprView, Expr.recast, Option.map_some, hpos]
  | string | ident =>
      apply hatom
      simp only [exprView, Expr.recast, Option.map_some, hpos, hliteral]
  | lparen =>
      apply matches_afterNext (by decide)
      · apply matches_malformed
        exact fun _ _ _ => rfl
      · apply (ih.expression 0).bind
        intro e e' he
        apply (matches_require .rparen).andThen
        apply matches_pure
        simp only [exprView] at he
        simp only [exprView, Expr.recast, Option.map_some, hpos, he]
  | ifWord => apply ih.conditional
  | fnWord =>
      apply matches_take.andThen
      apply (matches_require .lparen).andThen
      apply (matches_list fun _ _ _ => matches_parameter).bind
      intro names names' hnames
      rw [List.map_id, List.map_id] at hnames
      apply ih.block.bind
      intro b b' hb
      apply matches_pure
      simp only [stmtView] at hb
      simp only [exprView, Expr.recast, Option.map_some, hpos, hnames, hb]
  | lbracket =>
      apply matches_take.andThen
      apply (matches_list fun _ _ _ => ih.expression 0).bind
      intro es es' hes
      apply matches_pure
      simp only [exprView, Expr.recast, Expr.recastAll_eq_map, Option.map_some, hpos]
      apply congrArg _ hes
  | lbrace =>
      apply matches_take.andThen
      apply (matches_list fun _ _ h => matches_entry ih.expression h).bind
      intro es es' hes
      apply matches_pure
      simp only [exprView, Expr.recast, Expr.recastEntries_eq_map, Option.map_some, hpos]
      apply congrArg _ hes
  | bang => apply hsigned .not
  | minus => apply hsigned .neg
  | _ => apply matches_unexpected

theorem matchesAt (h : limit ≤ limit') :
  MatchesAt place further limit limit'
  := by
  induction limit generalizing limit' with
  | zero =>
      constructor
      · rw [statement]
        apply matches_exhausted
      · rw [block]
        apply matches_exhausted
      · intro power
        rw [expression]
        apply matches_exhausted
      · rw [operand]
        apply matches_exhausted
      · rw [conditional]
        apply matches_exhausted
  | succ limit ih =>
      cases limit' with
      | zero => cases h
      | succ limit' =>
          have ih' := ih (Nat.le_of_succ_le_succ h)
          constructor
          · apply matches_statement ih'
          · apply matches_block ih'
          · apply matches_expression ih'
          · apply matches_operand ih'
          · apply matches_conditional ih'

end

end Reader

end ExprScript
