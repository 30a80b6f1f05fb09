import ExprScript.Proofs.Grammar.Program
import ExprScript.Proofs.Reader.Limit
import ExprScript.Proofs.Reader.Match

/-!
# Reading comes to an end

On every stream of a source text the routines come to an end within a limit that depends on the
number of tokens left only, and beyond which they do the same within any other.  The loops come to
an end since each round takes a token, and those that have come to the end of input do not begin
another round there: what is not closed is refused.
-/

namespace ExprScript.Reader

open Relation Stateful Grammar

variable {α : Type} {limit limit' : Nat} {s s' : TokenStream}

/-! ### Loops that have come to the end of input -/

section

variable {close : Kind}

/-- A loop over items, on a stream, does not go on forever. -/
structure ItemsEnd (close : Kind) (item : Reader α) (s : TokenStream) : Prop where
  /-- Every further round leaves fewer tokens. -/
  fewer : ∀ {s'}, ItemRound close item s s' → s'.left < s.left
  /-- The end of input is refused by a loop that comes to it. -/
  unclosed : ∀ {s'}, close ≠ .eof → ReflTransGen (ItemRound close item) s s' →
    s'.head.kind = .eof → (upTo close item).run s = .error (.refused (.unexpected s'.head)) s'

/-- A list, on a stream, does not go on forever. -/
structure ListEnds (close : Kind) (item : List α → Reader α) (s : TokenStream) : Prop where
  /-- Every further round leaves fewer tokens. -/
  fewer : ∀ {done y}, ListRound close item (done, s) y → y.2.left < s.left
  /-- The end of input in the place of an item is refused. -/
  unclosed : ∀ {done s'}, ReflTransGen (ListRound close item) ([], s) (done, s') →
    s'.head.kind = .eof → ∃ e, (list close item).run s = .error (.refused e) s'
  /-- The end of input right after an item is refused. -/
  separator : ∀ {done s' a s''}, ReflTransGen (ListRound close item) ([], s) (done, s') →
    s'.head.kind ≠ close → (item done).run s' = .ok a s'' → s''.head.kind = .eof →
    (list close item).run s
      = .error (.refused (.malformed (.separator close s''.head) (some s''.head.pos))) s''

/-- The loop over the links of an expression, on a stream, does not go on forever. -/
structure LinksEnd (expr : Nat → Reader Expr) (power : Nat) (s : TokenStream) : Prop where
  /-- Every further round leaves fewer tokens. -/
  fewer : ∀ {left y}, LinkRound expr power (left, s) y → y.2.left < s.left
  /-- The end of input ends the expression. -/
  ends : ∀ {left left' s'}, ReflTransGen (LinkRound expr power) (left, s) (left', s') →
    s'.head.kind = .eof → (links expr power left).run s = .ok left' s'

/-- A loop over items fails where it comes to with its rounds. -/
theorem upTo_error_of_rounds {item : Reader α}
    (hround : ∀ {s s'}, s.Ended → ItemRound close item s s' → Takes s s') (hs : s.Ended)
    (hrounds : ReflTransGen (ItemRound close item) s s') {e : ReadFailure} {s'' : TokenStream}
    (hrun : ∀ bound, s'.left < bound.length → (upToIn close item bound).run s' = .error e s'') :
  (upTo close item).run s = .error e s''
  := by
  have hin : ∀ bound, s.left < bound.length →
      (upToIn close item bound).run s = .error e s'' := by
    induction hrounds using ReflTransGen.head_induction_on with
    | refl => exact hrun
    | head hr _ ih =>
        have htakes := hround hs hr
        have hfewer := htakes.fewer
        obtain ⟨hclose, heof, ha⟩ := hr
        intro bound hb
        cases bound with
        | nil => apply absurd hb (Nat.not_lt_zero _)
        | cons _ bound =>
            rw [List.length_cons] at hb
            rw [upToIn, run_if_nextIs_of_ne hclose, run_if_nextIs_of_ne heof, run_bind_of_ok ha]
            apply run_bind_of_error
            apply ih (htakes.ended hs) bound (by omega)
  apply hin _ (TokenStream.left_lt_length_bound s)

/-- A list fails where it comes to with its rounds. -/
theorem list_error_of_rounds {item : List α → Reader α} (hadvances : ∀ done, Advances (item done))
    (hs : s.Ended) {done : List α}
    (hrounds : ReflTransGen (ListRound close item) ([], s) (done, s')) {e : ReadFailure}
    {s'' : TokenStream}
    (hrun : ∀ bound, s'.left < bound.length →
      (listIn close item bound done).run s' = .error e s'') :
  (list close item).run s = .error e s''
  := by
  have hin : ∀ x : List α × TokenStream, ReflTransGen (ListRound close item) x (done, s') →
      x.2.Ended → ∀ bound, x.2.left < bound.length →
      (listIn close item bound x.1).run x.2 = .error e s'' := by
    intro x hx
    induction hx using ReflTransGen.head_induction_on with
    | refl => exact fun _ => hrun
    | head hr _ ih =>
        intro hs bound hb
        have htakes := hr.takes hadvances hs
        have hfewer := htakes.fewer
        obtain ⟨hclose, ha, hk⟩ := hr
        cases bound with
        | nil => apply absurd hb (Nat.not_lt_zero _)
        | cons _ bound =>
            rw [List.length_cons] at hb
            rw [listIn, run_if_nextIs_of_ne hclose, run_bind_of_ok ha, run_if_nextIs_of_eq hk,
              run_bind_of_ok (run_take _)]
            apply ih (htakes.ended hs) bound (by omega)
  rw [list, run_get_bind]
  apply run_bind_of_error
  apply hin _ hrounds hs _ (TokenStream.left_lt_length_bound s)

/-- An expression is left where its links lead to. -/
theorem links_eq_ok_of_rounds {power : Nat} {left left' : Expr} (hs : s.Ended)
    (hrounds : ReflTransGen (LinkRound (expression limit) power) (left, s) (left', s'))
    (hk : s'.head.kind.link? = none) :
  (links (expression limit) power left).run s = .ok left' s'
  := by
  have hin : ∀ x : Expr × TokenStream,
      ReflTransGen (LinkRound (expression limit) power) x (left', s') → x.2.Ended →
      ∀ bound, x.2.left < bound.length →
      (linksIn (expression limit) power bound x.1).run x.2 = .ok left' s' := by
    intro x hx
    induction hx using ReflTransGen.head_induction_on with
    | refl =>
        intro _ bound hb
        cases bound with
        | nil => apply absurd hb (Nat.not_lt_zero _)
        | cons _ bound =>
            rw [linksIn, run_bind_of_ok (run_next s'), hk]
            rfl
    | head hr _ ih =>
        intro hs bound hb
        have htakes := hr.takes hs
        have hfewer := htakes.fewer
        obtain ⟨hl, hpower, hx⟩ := hr
        cases bound with
        | nil => apply absurd hb (Nat.not_lt_zero _)
        | cons _ bound =>
            rw [List.length_cons] at hb
            rw [linksIn, run_bind_of_ok (run_next _), hl]
            simp only [if_neg hpower]
            rw [run_bind_of_ok hx]
            apply ih (htakes.ended hs) bound (by omega)
  rw [links, run_get_bind]
  apply hin _ hrounds hs _ (TokenStream.left_lt_length_bound s)

theorem itemsEnd_statement (hs : s.Ended) :
  ItemsEnd close (statement limit) s
  := by
  constructor
  · intro s' hr
    apply (hr.takes hs).fewer
  · intro s' hclose hrounds heof
    apply upTo_error_of_rounds ItemRound.takes hs hrounds
    intro bound hb
    cases bound with
    | nil => apply absurd hb (Nat.not_lt_zero _)
    | cons _ bound =>
        have hne : s'.head.kind ≠ close := fun h => hclose (h.symm.trans heof)
        rw [upToIn, run_if_nextIs_of_ne hne, run_if_nextIs_of_eq heof]
        apply run_unexpected

/-- A list comes to an end if the end of input is refused as an item of it. -/
theorem listEnds {item : List α → Reader α} (hclose : close ≠ .eof)
    (hadvances : ∀ done, Advances (item done))
    (hitem : ∀ {done s'}, s'.head.kind = .eof →
      ∃ e, (item done).run s' = .error (.refused e) s') (hs : s.Ended) :
  ListEnds close item s
  := by
  constructor
  · intro done y hr
    apply (hr.takes hadvances hs).fewer
  · intro done s' hrounds heof
    have hrefused : ∃ e, (item done).run s' = .error (.refused e) s' := hitem heof
    obtain ⟨e, he⟩ := hrefused
    refine ⟨e, ?_⟩
    apply list_error_of_rounds hadvances hs hrounds
    intro bound hb
    cases bound with
    | nil => apply absurd hb (Nat.not_lt_zero _)
    | cons _ bound =>
        have hne : s'.head.kind ≠ close := fun h => hclose (h.symm.trans heof)
        rw [listIn, run_if_nextIs_of_ne hne]
        apply run_bind_of_error he
  · intro done s' a s'' hrounds hne ha heof
    apply list_error_of_rounds hadvances hs hrounds
    intro bound hb
    cases bound with
    | nil => apply absurd hb (Nat.not_lt_zero _)
    | cons _ bound =>
        have hne' : s''.head.kind ≠ close := fun h => hclose (h.symm.trans heof)
        have hne'' : s''.head.kind ≠ .comma := by
          rw [heof]
          decide
        rw [listIn, run_if_nextIs_of_ne hne, run_bind_of_ok ha, run_if_nextIs_of_ne hne'',
          run_if_nextIs_of_ne hne']
        apply run_malformed

theorem listEnds_expression (hclose : close ≠ .eof) (hs : s.Ended) :
  ListEnds close (fun _ => expression (limit + 2) 0) s
  := by
  apply listEnds hclose (fun _ => (advancesAt _).expression 0) _ hs
  intro done s' heof
  refine ⟨.unexpected s'.head, ?_⟩
  rw [expression]
  apply run_bind_of_error
  rw [operand, run_bind_of_ok (run_next s'), heof]
  rfl

theorem listEnds_entry (hs : s.Ended) :
  ListEnds .rbrace (entry (expression limit)) s
  := by
  apply listEnds (by decide) (advances_entry (advancesAt limit).expression) _ hs
  intro done s' heof
  refine ⟨.malformed (.mapKey s'.head) (some s'.head.pos), ?_⟩
  rw [entry, run_bind_of_ok (run_next s'), heof, if_neg (by decide)]
  apply run_malformed

theorem listEnds_parameter (hs : s.Ended) :
  ListEnds .rparen (fun _ => parameter) s
  := by
  apply listEnds (by decide) (fun _ => advances_parameter) _ hs
  intro done s' heof
  refine ⟨.unexpected s'.head, ?_⟩
  rw [parameter]
  apply run_bind_of_error
  rw [run_require, heof, if_neg (by decide)]

theorem linksEnd (power : Nat) (hs : s.Ended) :
  LinksEnd (expression limit) power s
  := by
  constructor
  · intro left y hr
    apply (hr.takes hs).fewer
  · intro left left' s' hrounds heof
    apply links_eq_ok_of_rounds hs hrounds
    rw [heof]
    rfl

end

/-- What is not closed after an expression in parentheses is refused. -/
theorem group_unclosed (hk : s.head.kind = .lparen) (hsecond : s.second.kind ≠ .rparen)
    {inner : Expr} (hinner : (expression limit 0).run s.tail = .ok inner s')
    (heof : s'.head.kind = .eof) :
  (operand (limit + 1)).run s = .error (.refused (.unexpected s'.head)) s'
  := by
  rw [operand, run_bind_of_ok (run_next s), hk]
  simp only
  rw [run_bind_of_ok (run_afterNext s), if_neg hsecond, run_bind_of_ok (run_take s),
    run_bind_of_ok hinner]
  apply run_bind_of_error
  rw [run_require, heof, if_neg (by decide)]

/-! ### Limits that are enough -/

/-- A reader that does the same as another one on every stream that goes on, as far as can be
seen, does the same on this one. -/
theorem run_eq_of_matches {γ : Type} {view : α → γ} (hview : Function.Injective view)
    {x x' : Reader α} (hmatches : Matches id ⟨[], s.last⟩ view x x') (hs : s.Ended)
    (hcopes : ∀ s', x.run s ≠ .error .exhausted s') :
  x'.run s = x.run s
  := by
  have hlater := hmatches.later s hs
  have hleads : Leads id ⟨[], s.last⟩ s s := by
    refine ⟨hs, s.ahead, ?_, rfl⟩
    rw [TokenStream.prepend, List.append_nil]
  have hsame : ∀ {s₁ s₁' : TokenStream}, s.Later s₁ → Leads id ⟨[], s.last⟩ s₁ s₁' → s₁' = s₁ := by
    rintro ⟨ahead, last⟩ _ ⟨-, rfl⟩ ⟨-, w, rfl, hw⟩
    have hid : Token.recast id = id := rfl
    rw [hid, List.map_id, List.map_id] at hw
    rw [TokenStream.prepend, List.append_nil, hw]
  have hrun := hmatches.run s s hleads ⟨hcopes, fun _ => ⟨rfl, congrArg _ hlater.last.symm⟩⟩
  cases hx : x.run s with
  | ok a s₁ =>
      rw [hx] at hrun hlater
      obtain ⟨a', s₁', hx', ha, hs₁⟩ := hrun.of_ok
      have hs₁' : s₁' = s₁ := hsame hlater hs₁
      rw [hx', hview ha, hs₁']
  | error e s₁ =>
      rw [hx] at hrun hlater
      obtain ⟨e', s₁', hx', he, hs₁⟩ := hrun.of_error
      have hs₁' : s₁' = s₁ := hsame hlater hs₁
      rw [ReadFailure.recast_id, ReadFailure.recast_id] at he
      rw [hx', he, hs₁']

theorem exprView_injective :
  Function.Injective (exprView id)
  := by
  intro e e' h
  rw [exprView, exprView, Option.map_id, Expr.recast_id, Expr.recast_id] at h
  apply h

theorem stmtView_injective :
  Function.Injective (stmtView id)
  := by
  intro ss ss' h
  rw [stmtView, stmtView, Option.map_id, Stmt.recast_id, Stmt.recast_id] at h
  apply h

/-- Within a limit that is not used up a routine does the same as within any larger one. -/
theorem Routine.run_eq_of_le {r : Routine} (hs : s.Ended)
    (hcopes : ∀ s', (r.reader limit).run s ≠ .error .exhausted s') (hl : limit ≤ limit') :
  (r.reader limit').run s = (r.reader limit).run s
  := by
  have hmatches : MatchesAt id ⟨[], s.last⟩ limit limit' := matchesAt hl
  cases r with
  | statement => apply run_eq_of_matches stmtView_injective hmatches.statement hs hcopes
  | block => apply run_eq_of_matches stmtView_injective hmatches.block hs hcopes
  | expression power =>
      apply run_eq_of_matches exprView_injective (hmatches.expression power) hs hcopes
  | operand => apply run_eq_of_matches exprView_injective hmatches.operand hs hcopes
  | conditional => apply run_eq_of_matches exprView_injective hmatches.conditional hs hcopes

/-- Within a limit that is not used up a program is read as within any larger one. -/
theorem run_program_eq_of_le (hs : s.Ended)
    (hcopes : ∀ s', (program limit).run s ≠ .error .exhausted s') (hl : limit ≤ limit') :
  (program limit').run s = (program limit).run s
  := by
  let view (p : Program) : List Stmt := p.statements.map (stmtView id)
  have hmatches : Matches id ⟨[], s.last⟩ view (program limit) (program limit') := by
    apply (matches_upTo (matchesAt hl).statement).bind
    intro ss ss' hss
    have hview : view ⟨ss⟩ = view ⟨ss'⟩ := hss
    apply matches_pure hview
  apply run_eq_of_matches _ hmatches hs hcopes
  rintro ⟨ss⟩ ⟨ss'⟩ h
  apply congrArg Program.mk
  apply (List.map_inj_right fun _ _ hx => stmtView_injective hx).mp h

/-! ### Every stream of a source text -/

/-- Reading from the stream comes to an end. -/
structure Terminates (s : TokenStream) : Prop where
  /-- A limit in terms of the tokens left is enough for a routine. -/
  ends : ∀ {r : Routine} {limit s'}, 3 * s.left + 4 ≤ limit →
    (r.reader limit).run s ≠ .error .exhausted s'
  /-- It is enough for a program. -/
  programEnds : ∀ {limit s'}, 3 * s.left + 4 ≤ limit →
    (program limit).run s ≠ .error .exhausted s'
  /-- Within any larger limit a routine does the same. -/
  settled : ∀ {r : Routine} {limit}, 3 * s.left + 4 ≤ limit →
    (r.reader limit).run s = (r.reader (3 * s.left + 4)).run s
  /-- Within any larger limit a program is read in the same way. -/
  programSettled : ∀ {limit}, 3 * s.left + 4 ≤ limit →
    (program limit).run s = (program (3 * s.left + 4)).run s
  /-- No loop uses up the limit: there is a chain of calls that does. -/
  deep : ∀ {r : Routine} {limit s'}, (r.reader limit).run s = .error .exhausted s' →
    UsedUp limit r s
  /-- With every result a routine leaves fewer tokens. -/
  fewer : ∀ {r : Routine} {limit a s'}, (r.reader limit).run s = .ok a s' → s'.left < s.left
  /-- An expression within another one starts with fewer tokens. -/
  expressionNested : ∀ {limit power limit' power' s'},
    Nests limit (.expression power) s limit' (.expression power') s' → s'.left < s.left
  /-- A statement within another one starts with fewer tokens. -/
  statementNested : ∀ {limit limit' s'}, Nests limit .statement s limit' .statement s' →
    s'.left < s.left
  /-- The statements of a program or a block come to an end. -/
  statements : ∀ close limit, ItemsEnd close (statement limit) s
  /-- The elements of an array and the arguments of a call come to an end. -/
  elements : ∀ close limit, close ≠ .eof → ListEnds close (fun _ => expression (limit + 2) 0) s
  /-- The entries of a map come to an end. -/
  entries : ∀ limit, ListEnds .rbrace (entry (expression limit)) s
  /-- The parameters of a function come to an end. -/
  parameters : ListEnds .rparen (fun _ => parameter) s
  /-- The links of an expression come to an end. -/
  links : ∀ limit power, LinksEnd (expression limit) power s
  /-- An expression in parentheses that is not closed is refused. -/
  group : ∀ {limit inner s'}, s.head.kind = .lparen → s.second.kind ≠ .rparen →
    (expression limit 0).run s.tail = .ok inner s' → s'.head.kind = .eof →
    (operand (limit + 1)).run s = .error (.refused (.unexpected s'.head)) s'

/-- From wherever reading has come to in a source text, it comes to an end. -/
theorem reading_terminates (source : String) {s : TokenStream}
    (h : (TokenStream.ofSource source).Later s) :
  Terminates s
  := by
  have hs : s.Ended := h.ended (TokenStream.ofSource_ended source)
  have hends : ∀ {r : Routine} {limit s'}, 3 * s.left + 4 ≤ limit →
      (r.reader limit).run s ≠ .error .exhausted s' := by
    intro r limit s' hl
    have hweight := r.weight_le
    apply not_exhausted_of_le hs (by omega)
  constructor
  case ends => exact hends
  case programEnds => exact fun hl => program_copes hs hl _
  case settled =>
    intro r limit hl
    apply Routine.run_eq_of_le hs _ hl
    exact fun _ => hends (Nat.le_refl _)
  case programSettled =>
    intro limit hl
    apply run_program_eq_of_le hs _ hl
    apply program_copes hs (Nat.le_refl _)
  case deep => exact fun hx => (usedUp_of_exhausted _ _ hs).reason hx
  case fewer => exact fun hx => (Routine.takes hs hx).fewer
  case expressionNested => exact fun hn => hn.left_lt hs (by simp [Routine.weight])
  case statementNested => exact fun hn => hn.left_lt hs (Nat.le_refl _)
  case statements => exact fun _ _ => itemsEnd_statement hs
  case elements => exact fun _ _ hclose => listEnds_expression hclose hs
  case entries => exact fun _ => listEnds_entry hs
  case parameters => exact listEnds_parameter hs
  case links => exact fun _ power => linksEnd power hs
  case group => exact fun hk hsecond hinner heof => group_unclosed hk hsecond hinner heof

/-- So it does from the first argument of a call that is never closed. -/
theorem reading_terminates_in_unclosed_call :
  (TokenStream.ofSource "f([1,").Later (TokenStream.ofSource "f([1,").tail.tail
    ∧ Terminates (TokenStream.ofSource "f([1,").tail.tail
  := by
  have hlater : (TokenStream.ofSource "f([1,").Later (TokenStream.ofSource "f([1,").tail.tail :=
    (TokenStream.Later.tail _).trans (.tail _)
  exact ⟨hlater, reading_terminates "f([1," hlater⟩

end ExprScript.Reader
