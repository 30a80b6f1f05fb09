import ExprScript.Proofs.Reader.Routine

/-!
# How much limit is enough

A routine runs into its limit only along a chain of calls that is as long as the limit.  The loops
do not use up their bounds, because every round takes a token.  Calls go down, so there is no such
chain if the limit is three for each token left, and a few more.
-/

namespace ExprScript.Reader

open Relation Stateful Grammar

variable {α β : Type} {C : Prop} {limit : Nat} {s : TokenStream}

/-- If the reader runs into the limit on a stream, then for a given reason. -/
structure Blames (C : Prop) (x : Reader α) (s : TokenStream) : Prop where
  reason : ∀ {s'}, x.run s = .error .exhausted s' → C

theorem Blames.mono {C' : Prop} {x : Reader α} (h : Blames C x s) (hC : C → C') :
  Blames C' x s
  := ⟨fun hx => hC (h.reason hx)⟩

/-- A sequence runs into the limit for the reasons of its parts. -/
theorem Blames.bind {x : Reader α} {f : α → Reader β} (hx : Blames C x s)
    (hf : ∀ a s', x.run s = .ok a s' → Blames C (f a) s') :
  Blames C (x >>= f) s
  := by
  constructor
  intro s' h
  rcases run_bind_eq_error.mp h with h | ⟨a, s₁, ha, h⟩
  · apply hx.reason h
  · apply (hf a s₁ ha).reason h

theorem blames_pure (a : α) :
  Blames C (pure a) s
  := ⟨nofun⟩

theorem blames_refuse (e : SourceError) :
  Blames C (refuse e : Reader α) s
  := ⟨nofun⟩

theorem blames_unexpected :
  Blames C (unexpected : Reader α) s
  := ⟨nofun⟩

theorem blames_malformed (shape : Token → Malformed) :
  Blames C (malformed shape : Reader α) s
  := ⟨nofun⟩

/-- A sequence after a basic reader that has a result runs into the limit as the rest does. -/
theorem blames_bind_of_ok {x : Reader α} {f : α → Reader β} {s' : TokenStream} {a : α}
    (hx : x.run s = .ok a s') (hf : Blames C (f a) s') :
  Blames C (x >>= f) s
  := by
  constructor
  intro s'' h
  rw [run_bind_of_ok hx] at h
  apply hf.reason h

theorem blames_if_nextIs {k : Kind} {x y : Reader β} (hx : s.head.kind = k → Blames C x s)
    (hy : s.head.kind ≠ k → Blames C y s) :
  Blames C (nextIs k >>= fun b => if b = true then x else y) s
  := by
  constructor
  intro s' h
  by_cases hk : s.head.kind = k
  · rw [run_if_nextIs_of_eq hk] at h
    apply (hx hk).reason h
  · rw [run_if_nextIs_of_ne hk] at h
    apply (hy hk).reason h

theorem blames_require_bind {k : Kind} {f : Token → Reader β}
    (hf : s.head.kind = k → Blames C (f s.head) s.tail) :
  Blames C (require k >>= f) s
  := by
  constructor
  intro s' h
  rw [EStateM.run_bind, run_require] at h
  by_cases hk : s.head.kind = k
  · simp only [hk, if_true] at h
    apply (hf hk).reason h
  · simp [hk] at h

theorem blames_operandAhead_bind {f : Unit → Reader β}
    (hf : s.head.kind.barsOperand = false → Blames C (f ()) s) :
  Blames C (operandAhead >>= f) s
  := by
  constructor
  intro s' h
  rw [EStateM.run_bind, run_operandAhead] at h
  cases hk : s.head.kind.barsOperand with
  | true => simp [hk] at h
  | false =>
      simp only [hk] at h
      apply (hf hk).reason h

theorem blames_number (t : Token) :
  Blames C (number t) s
  := by
  unfold number
  split
  · exact ⟨nofun⟩
  · split
    · apply blames_refuse
    · apply blames_pure

/-! ### Loops -/

/-- A loop over items runs into the limit for the reason of an item that it comes to. -/
theorem blames_upTo {close : Kind} {item : Reader α}
    (hround : ∀ {s s'}, s.Ended → ItemRound close item s s' → Takes s s')
    (hitem : ∀ {s'}, ReflTransGen (ItemRound close item) s s' → s'.head.kind ≠ close →
      s'.head.kind ≠ .eof → Blames C item s') (hs : s.Ended) :
  Blames C (upTo close item) s
  := by
  have hin : ∀ bound s', ReflTransGen (ItemRound close item) s s' → s'.left < bound.length →
      Blames C (upToIn close item bound) s' := by
    intro bound
    induction bound with
    | nil => exact fun _ _ hb => absurd hb (Nat.not_lt_zero _)
    | cons _ bound ih =>
        intro s' hrounds hb
        apply blames_if_nextIs (fun _ => blames_pure _)
        intro hclose
        apply blames_if_nextIs (fun _ => blames_unexpected)
        intro heof
        apply (hitem hrounds hclose heof).bind
        intro a s₁ ha
        have hs' : s'.Ended := (later_of_rounds id hround hs hrounds).ended hs
        have hnext := ItemRound.intro hclose heof ha
        have hfewer := (hround hs' hnext).fewer
        rw [List.length_cons] at hb
        apply (ih s₁ (hrounds.tail hnext) (by omega)).bind
        intro rest s₂ _
        apply blames_pure
  apply blames_bind_of_ok (EStateM.run_get s)
  apply hin _ s .refl (TokenStream.left_lt_length_bound s)

/-- A list runs into the limit for the reason of an item that it comes to. -/
theorem blames_list {close : Kind} {item : List α → Reader α}
    (hadvances : ∀ done, Advances (item done))
    (hitem : ∀ {done s'}, ReflTransGen (ListRound close item) ([], s) (done, s') →
      s'.head.kind ≠ close → Blames C (item done) s') (hs : s.Ended) :
  Blames C (list close item) s
  := by
  have hin : ∀ bound done s', ReflTransGen (ListRound close item) ([], s) (done, s') →
      s'.left < bound.length → Blames C (listIn close item bound done) s' := by
    intro bound
    induction bound with
    | nil => exact fun _ _ _ hb => absurd hb (Nat.not_lt_zero _)
    | cons _ bound ih =>
        intro done s' hrounds hb
        apply blames_if_nextIs (fun _ => blames_pure _)
        intro hclose
        apply (hitem hrounds hclose).bind
        intro a s₁ ha
        apply blames_if_nextIs
        · intro hk
          have hs' : s'.Ended :=
            (later_of_rounds Prod.snd (ListRound.takes hadvances) hs hrounds).ended hs
          have hnext := ListRound.intro hclose ha hk
          have hfewer : s₁.tail.left < s'.left :=
            (ListRound.takes hadvances (x := (done, s')) hs' hnext).fewer
          rw [List.length_cons] at hb
          apply blames_bind_of_ok (run_take s₁)
          apply ih _ _ (hrounds.tail hnext) (by omega)
        · intro _
          apply blames_if_nextIs (fun _ => blames_pure _)
          intro _
          apply blames_malformed
  apply blames_bind_of_ok (EStateM.run_get s)
  apply (hin _ [] s .refl (TokenStream.left_lt_length_bound s)).bind
  intro items s' _
  apply blames_require_bind
  intro _
  apply blames_pure

/-- The elements of a list of expressions give the reasons of the list. -/
theorem blames_elements {close : Kind}
    (helement : ∀ {s'}, Element limit close s s' → Blames C (expression limit 0) s')
    (hs : s.Ended) :
  Blames C (list close fun _ => expression limit 0) s
  := by
  apply blames_list (fun _ => (advancesAt limit).expression 0) _ hs
  intro done s' hrounds hclose
  apply helement ⟨hrounds, hclose⟩

theorem blames_parameters (hs : s.Ended) :
  Blames C (list .rparen fun _ => parameter) s
  := by
  apply blames_list (fun _ => advances_parameter) _ hs
  intro done s' _ _
  apply blames_require_bind
  intro _
  apply blames_pure

/-- What an expression goes on with runs into the limit for the reason of an expression behind the
token of the link. -/
theorem blames_extend {left : Expr} {link : Link}
    (hbehind : ∀ {power s'}, Behind limit link s.tail power s' →
      Blames C (expression limit power) s') (hs : s.Ended) :
  Blames C (extend (expression limit) left link) s
  := by
  have htail : s.tail.Ended := (TokenStream.Later.tail s).ended hs
  cases link with
  | index =>
      apply blames_bind_of_ok (run_take s)
      apply (hbehind .index).bind
      intro position s₁ _
      apply blames_require_bind
      intro _
      apply blames_pure
  | call =>
      apply blames_bind_of_ok (run_take s)
      apply (blames_elements (fun he => hbehind (.argument he)) htail).bind
      intro args s₁ _
      apply blames_pure
  | binary op left right =>
      apply blames_bind_of_ok (run_take s)
      apply blames_operandAhead_bind
      intro hbars
      apply (hbehind (.right hbars)).bind
      intro e s₁ _
      apply blames_pure

/-- The loop over links runs into the limit for the reason of a link that it comes to. -/
theorem blames_links {power : Nat} {left : Expr}
    (hlink : ∀ {left' s' link}, ReflTransGen (LinkRound (expression limit) power) (left, s)
      (left', s') → s'.head.kind.link? = some link → ¬ link.power < power →
      Blames C (extend (expression limit) left' link) s') (hs : s.Ended) :
  Blames C (links (expression limit) power left) s
  := by
  have hin : ∀ bound left' s',
      ReflTransGen (LinkRound (expression limit) power) (left, s) (left', s') →
      s'.left < bound.length → Blames C (linksIn (expression limit) power bound left') s' := by
    intro bound
    induction bound with
    | nil => exact fun _ _ _ hb => absurd hb (Nat.not_lt_zero _)
    | cons _ bound ih =>
        intro left' s' hrounds hb
        apply blames_bind_of_ok (run_next s')
        split
        · apply blames_pure
        · rename_i link hl
          split
          · apply blames_pure
          · rename_i hpower
            apply (hlink hrounds hl hpower).bind
            intro wider s₁ hx
            have hs' : s'.Ended :=
              (later_of_rounds Prod.snd LinkRound.takes hs hrounds).ended hs
            have hnext := LinkRound.intro hl hpower hx
            have hfewer : s₁.left < s'.left :=
              (LinkRound.takes (x := (left', s')) hs' hnext).fewer
            rw [List.length_cons] at hb
            apply ih _ _ (hrounds.tail hnext) (by omega)
  apply blames_bind_of_ok (EStateM.run_get s)
  apply hin _ left s .refl (TokenStream.left_lt_length_bound s)

/-! ### Routines -/

/-- A chain of calls uses up the limit of a routine. -/
def UsedUp (limit : Nat) (r : Routine) (s : TokenStream) : Prop :=
  ∃ r' s', Reaches limit r s 0 r' s'

theorem blames_statement (hcalls : ∀ {r s'}, Calls limit .statement s r s' →
    Blames C (r.reader limit) s') :
  Blames C (statement (limit + 1)) s
  := by
  rw [statement]
  apply blames_bind_of_ok (run_next s)
  split
  case h_1 hk =>
    apply blames_bind_of_ok (run_take s)
    apply blames_require_bind
    intro hname
    apply blames_require_bind
    intro hassign
    apply (hcalls (.bound hk hname hassign)).bind
    intro value s₁ _
    apply blames_require_bind
    intro _
    apply blames_pure
  case h_2 hk =>
    apply blames_bind_of_ok (run_take s)
    apply (hcalls (.returned hk)).bind
    intro value s₁ _
    apply blames_require_bind
    intro _
    apply blames_pure
  case h_3 hk =>
    apply (hcalls (.braces hk)).bind
    intro body s₁ _
    apply blames_bind_of_ok (run_skip .semicolon s₁)
    apply blames_pure
  case h_4 hlet hreturn hbrace =>
    apply (hcalls (.alone hlet hreturn hbrace)).bind
    intro value s₁ _
    apply blames_bind_of_ok (run_skip .semicolon s₁)
    apply blames_pure

theorem blames_block (hs : s.Ended) (hcalls : ∀ {r s'}, Calls limit .block s r s' →
    Blames C (r.reader limit) s') :
  Blames C (block (limit + 1)) s
  := by
  rw [block]
  apply blames_require_bind
  intro hk
  have hbody : Blames C (upTo .rbrace (statement limit)) s.tail := by
    apply blames_upTo ItemRound.takes _ ((TokenStream.Later.tail s).ended hs)
    intro s' hrounds hclose heof
    apply hcalls (.body hk hrounds hclose heof)
  apply hbody.bind
  intro body s₁ _
  apply blames_require_bind
  intro _
  apply blames_pure

theorem blames_expression {power : Nat} (hs : s.Ended)
    (hcalls : ∀ {r s'}, Calls limit (.expression power) s r s' → Blames C (r.reader limit) s') :
  Blames C (expression (limit + 1) power) s
  := by
  rw [expression]
  apply (hcalls .first).bind
  intro left s₁ hleft
  have hs₁ := (Routine.takes (r := .operand) hs hleft).ended hs
  apply blames_links _ hs₁
  intro left' s₂ link hrounds hl hpower
  have hs₂ := (later_of_rounds Prod.snd LinkRound.takes hs₁ hrounds).ended hs₁
  apply blames_extend _ hs₂
  intro power' s' hbehind
  apply hcalls (.further hleft hrounds hl hpower hbehind)

theorem blames_conditional
    (hcalls : ∀ {r s'}, Calls limit .conditional s r s' → Blames C (r.reader limit) s') :
  Blames C (conditional (limit + 1)) s
  := by
  rw [conditional]
  apply blames_require_bind
  intro hk
  apply (hcalls (.condition hk)).bind
  intro condition s₁ hc
  apply (hcalls (.consequence hk hc)).bind
  intro yes s₂ hy
  apply blames_if_nextIs _ (fun _ => blames_pure _)
  intro helse
  apply blames_bind_of_ok (run_take s₂)
  apply blames_bind_of_ok (run_next s₂.tail)
  split
  · rename_i hif
    apply (hcalls (.elseIf hk hc hy helse hif)).bind
    intro nested s₃ _
    apply blames_pure
  · rename_i hif
    apply (hcalls (.alternative hk hc hy helse hif)).bind
    intro no s₃ _
    apply blames_pure

theorem blames_operand (hs : s.Ended) (hcalls : ∀ {r s'}, Calls limit .operand s r s' →
    Blames C (r.reader limit) s') :
  Blames C (operand (limit + 1)) s
  := by
  have htail : s.tail.Ended := (TokenStream.Later.tail s).ended hs
  rw [operand]
  apply blames_bind_of_ok (run_next s)
  split
  case h_1 hk =>
    apply blames_bind_of_ok (run_take s)
    apply (blames_number s.head).bind
    intro n s₁ _
    apply blames_pure
  case h_6 hk =>
    apply blames_bind_of_ok (run_afterNext s)
    split
    · apply blames_malformed
    · rename_i hempty
      apply blames_bind_of_ok (run_take s)
      apply (hcalls (.inner hk hempty)).bind
      intro inner s₁ _
      apply blames_require_bind
      intro _
      apply blames_pure
  case h_7 hk => apply hcalls (.branching hk)
  case h_8 hk =>
    apply blames_bind_of_ok (run_take s)
    apply blames_require_bind
    intro hk'
    apply (blames_parameters ((TokenStream.Later.tail s.tail).ended htail)).bind
    intro parameters s₁ hparameters
    apply (hcalls (.function hk hk' hparameters)).bind
    intro body s₂ _
    apply blames_pure
  case h_9 hk =>
    apply blames_bind_of_ok (run_take s)
    apply (blames_elements (fun he => hcalls (.element hk he)) htail).bind
    intro elements s₁ _
    apply blames_pure
  case h_10 hk =>
    apply blames_bind_of_ok (run_take s)
    have hentries : Blames C (list .rbrace (entry (expression limit))) s.tail := by
      apply blames_list (advances_entry (advancesAt limit).expression) _ htail
      intro done s' hrounds _
      apply blames_bind_of_ok (run_next s')
      split
      · rename_i hkey
        apply blames_bind_of_ok (run_take s')
        split
        · apply blames_refuse
        · rename_i hnew
          apply blames_require_bind
          intro hcolon
          apply (hcalls (.value hk hrounds hkey (by simpa using hnew) hcolon)).bind
          intro value s₁ _
          apply blames_pure
      · apply blames_malformed
    apply hentries.bind
    intro entries s₁ _
    apply blames_pure
  case h_11 =>
    split
    · rename_i op hop
      apply blames_bind_of_ok (run_take s)
      apply blames_operandAhead_bind
      intro hbars
      apply (hcalls (.signed hop hbars)).bind
      intro e s₁ _
      apply blames_pure
    · apply blames_unexpected
  -- the other atoms are made of their one token
  all_goals
    apply blames_bind_of_ok (run_take s)
    apply blames_pure

/-- A routine runs into its limit only along a chain of calls that uses it up. -/
theorem usedUp_of_exhausted (limit : Nat) (r : Routine) (hs : s.Ended) :
  Blames (UsedUp limit r s) (r.reader limit) s
  := by
  induction limit generalizing r s with
  | zero => exact ⟨fun _ => ⟨r, s, .refl⟩⟩
  | succ limit ih =>
      have hcalls : ∀ {r' s'}, Calls limit r s r' s' →
          Blames (UsedUp (limit + 1) r s) (r'.reader limit) s' := by
        intro r' s' hcall
        apply (ih r' ((hcall.descends hs).1.ended hs)).mono
        rintro ⟨r'', s'', hreaches⟩
        exact ⟨r'', s'', .step hcall hreaches⟩
      cases r with
      | statement => apply blames_statement hcalls
      | block => apply blames_block hs hcalls
      | expression power => apply blames_expression hs hcalls
      | operand => apply blames_operand hs hcalls
      | conditional => apply blames_conditional hcalls

/-- A limit of three for each token left, and the weight of the routine, is enough. -/
theorem not_exhausted_of_le {r : Routine} (hs : s.Ended) (hl : 3 * s.left + r.weight ≤ limit)
    (s' : TokenStream) :
  (r.reader limit).run s ≠ .error .exhausted s'
  := by
  intro h
  obtain ⟨r', s'', hreaches⟩ := (usedUp_of_exhausted limit r hs).reason h
  obtain ⟨-, hless⟩ := hreaches.descends hs
  have hweight := r'.weight_pos
  omega

/-- A program is read within a limit of three for each token, and a few more. -/
theorem program_copes (hs : s.Ended) (hl : 3 * s.left + 4 ≤ limit) (s' : TokenStream) :
  (program limit).run s ≠ .error .exhausted s'
  := by
  have hbody : Blames False (upTo .eof (statement limit)) s := by
    apply blames_upTo ItemRound.takes _ hs
    intro s' hrounds _ _
    have hlater : s.Later s' := later_of_rounds id ItemRound.takes hs hrounds
    have hlength : s'.left ≤ s.left := hlater.ahead.length_le
    constructor
    intro s'' h
    apply not_exhausted_of_le (r := .statement) (hlater.ended hs) _ s'' h
    rw [Routine.weight]
    omega
  have hprogram : Blames False (program limit) s := by
    apply hbody.bind
    intro ss s₁ _
    apply blames_pure
  exact fun h => hprogram.reason h

end ExprScript.Reader
