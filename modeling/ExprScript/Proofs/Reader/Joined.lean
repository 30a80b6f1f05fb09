import ExprScript.Proofs.Grammar.Last
import ExprScript.Proofs.Grammar.Program
import ExprScript.Proofs.Reader.Match
import ExprScript.Proofs.Token.Split

/-!
# Reading texts on top of each other

When several texts are read as one, each on lines of its own, the statements are those of the
texts one after the other, if every text but the last one ends in a semicolon or has no tokens at
all.  The semicolon ends the last statement of its text, so no statement is influenced by what
follows, within the same limit.
-/

namespace ExprScript

open Stateful

/-- Whether the tokens ahead end in a semicolon, if there are any. -/
def TokenStream.isClosed (s : TokenStream) : Bool :=
  s.ahead.getLast?.all fun t => t.kind = .semicolon

namespace TokenStream

variable {s s₁ : TokenStream}

theorem kind_last (h : s.isClosed = true) {t : Token} (ht : s.ahead.getLast? = some t) :
  t.kind = .semicolon
  := by
  rw [isClosed, ht] at h
  apply of_decide_eq_true h

/-- What is later on a stream that ends in a semicolon ends in it too. -/
theorem isClosed_later (h : s.isClosed = true) (hs : s.Later s₁) :
  s₁.isClosed = true
  := by
  rw [isClosed, Option.all_eq_true]
  intro t ht
  obtain ⟨w, hw⟩ := hs.ahead
  apply decide_eq_true
  apply kind_last h
  rw [← hw, List.getLast?_append, ht, Option.some_or]

end TokenStream

namespace Reader

open Grammar

/-! ### The last statement of a text -/

section

variable (place : Pos → Pos) (further : TokenStream) {α γ : Type}

/-- The first reader needs a token.  Where it has a result on a stream that ends in a semicolon,
the second one has the same on any stream that the first one's leads to. -/
structure Finishes (view : α → γ) (r r' : Reader α) : Prop where
  needs : ∀ s a s₁, s.Ended → r.run s = .ok a s₁ → s.ahead ≠ []
  run : ∀ s s' a s₁, Leads place further s s' → s.isClosed = true → r.run s = .ok a s₁ →
    ∃ a' s₁', r'.run s' = .ok a' s₁' ∧ view a = view a' ∧ Leads place further s₁ s₁'

end

section

variable {place : Pos → Pos} {further s s' : TokenStream} {α β γ δ : Type} {view : α → γ}
  {view' : β → δ}

/-- A result that leaves tokens ahead is the same on a stream that goes on. -/
theorem Matches.run_ok {r r' : Reader α} (h : Matches place further view r r')
    (hs : Leads place further s s') {a : α} {s₁ : TokenStream} (ha : r.run s = .ok a s₁)
    (hne : s₁.ahead ≠ []) :
  ∃ a' s₁', r'.run s' = .ok a' s₁' ∧ view a = view a' ∧ Leads place further s₁ s₁'
  := by
  have hrun := h.run s s' hs
  rw [ha] at hrun
  exact (hrun ⟨nofun, fun hnil => absurd hnil hne⟩).of_ok

/-- Readers that finish may follow others. -/
theorem Finishes.of_bind {x x' : Reader α} {f f' : α → Reader β}
    (hx : Matches place further view x x')
    (hf : ∀ a a', view a = view a' → Finishes place further view' (f a) (f' a')) :
  Finishes place further view' (x >>= f) (x' >>= f')
  := by
  constructor
  · intro s b s₂ hs h
    obtain ⟨a, s₁, ha, hb⟩ := run_bind_eq_ok.mp h
    have hlater := hx.later s hs
    rw [ha] at hlater
    have hne := (hf a a rfl).needs s₁ b s₂ (hlater.ended hs) hb
    intro hnil
    apply hne
    apply List.suffix_nil.mp
    rw [← hnil]
    apply hlater.ahead
  · intro s s' b s₂ hs hclosed h
    obtain ⟨a, s₁, ha, hb⟩ := run_bind_eq_ok.mp h
    have hlater := hx.later s hs.ended
    rw [ha] at hlater
    have hne := (hf a a rfl).needs s₁ b s₂ (hlater.ended hs.ended) hb
    obtain ⟨a', s₁', ha', hview, hs₁⟩ := hx.run_ok hs ha hne
    obtain ⟨b', s₂', hb', hview', hs₂⟩ :=
      (hf a a' hview).run s₁ s₁' b s₂ hs₁ (TokenStream.isClosed_later hclosed hlater) hb
    exact ⟨b', s₂', run_bind_eq_ok.mpr ⟨a', s₁', ha', hb'⟩, hview', hs₂⟩

theorem Finishes.after {x x' : Reader α} {r r' : Reader β}
    (hx : Matches place further view x x') (hr : Finishes place further view' r r') :
  Finishes place further view' (x >>= fun _ => r) (x' >>= fun _ => r')
  := by
  apply Finishes.of_bind hx
  intro _ _ _
  apply hr

/-- The semicolon itself may be the last token. -/
theorem finishes_require {a a' : α} (ha : view a = view a') :
  Finishes place further view (require .semicolon >>= fun _ => pure a)
    (require .semicolon >>= fun _ => pure a')
  := by
  have hahead : ∀ s : TokenStream, s.Ended → s.head.kind = .semicolon → s.ahead ≠ [] := by
    intro s hs hk hnil
    rw [TokenStream.head, hnil, List.headD_nil, hs.last] at hk
    cases hk
  constructor
  · intro s b s₁ hs h
    obtain ⟨hk, -⟩ := run_require_bind_eq_ok.mp h
    apply hahead s hs hk
  · intro s s' b s₁ hs _ h
    obtain ⟨hk, h⟩ := run_require_bind_eq_ok.mp h
    cases h
    have htied : s.ahead = [] → Tied place further s := fun hnil =>
      absurd hnil (hahead s hs.ended hk)
    have hk' := (Token.kind_of_recast (hs.head htied)).symm.trans hk
    exact ⟨a', s'.tail, run_require_bind_eq_ok.mpr ⟨hk', rfl⟩, ha, hs.tail htied⟩

/-- An expression or a block does not end in a semicolon, so there is one after it that can be
skipped. -/
theorem finishes_skip {S : Sym} {x x' : Reader S.Tree} {view : S.Tree → γ} {g g' : S.Tree → β}
    (hx : Matches place further view x x') (hsound : Sound S x) (hsolid : S.solid = true)
    (hS : S.holdsTogether = true) (hg : ∀ a a', view a = view a' → view' (g a) = view' (g' a')) :
  Finishes place further view' (x >>= fun a => skip .semicolon >>= fun _ => pure (g a))
    (x' >>= fun a => skip .semicolon >>= fun _ => pure (g' a))
  := by
  constructor
  · intro s b s₁ hs h hnil
    obtain ⟨a, s₂, ha, -⟩ := run_bind_eq_ok.mp h
    obtain ⟨w, rfl, hw⟩ := hsound hs ha
    apply hw.ne_nil hsolid
    apply (List.append_eq_nil_iff.mp hnil).1
  · intro s s' b s₁ hs hclosed h
    obtain ⟨a, s₂, ha, hb⟩ := run_bind_eq_ok.mp h
    have hne : s₂.ahead ≠ [] := by
      intro hnil
      obtain ⟨w, rfl, hw⟩ := hsound hs.ended ha
      obtain ⟨t, ht⟩ := List.getLast?_isSome.mpr (hw.ne_nil hsolid) |> Option.isSome_iff_exists.mp
      apply hw.last hS t ht
      apply TokenStream.kind_last hclosed
      rw [TokenStream.prepend, hnil, List.append_nil]
      apply ht
    obtain ⟨a', s₂', ha', hview, hs₂⟩ := hx.run_ok hs ha hne
    have htied : s₂.ahead = [] → Tied place further s₂ := fun hnil => absurd hnil hne
    rw [run_bind_of_ok (run_skip .semicolon s₂)] at hb
    cases hb
    have hkind := Token.kind_of_recast (hs₂.head htied)
    refine ⟨g' a', if s₂'.head.kind = .semicolon then s₂'.tail else s₂', ?_, hg a a' hview, ?_⟩
    · rw [run_bind_of_ok ha', run_bind_of_ok (run_skip .semicolon s₂')]
      rfl
    · rw [hkind]
      split
      · apply hs₂.tail htied
      · apply hs₂

theorem finishes_statement (limit : Nat) :
  Finishes place further (stmtView place) (statement limit) (statement limit)
  := by
  cases limit with
  | zero =>
      rw [statement]
      constructor
      · intro s a s₁ _ h
        cases h
      · intro s s' a s₁ _ _ h
        cases h
  | succ limit =>
      have hmatches : MatchesAt place further limit limit := matchesAt (Nat.le_refl limit)
      have hsound := soundAt limit
      rw [statement]
      apply Finishes.of_bind matches_next
      intro t t' ht
      have hpos := Token.pos_of_recast ht
      rw [Token.kind_of_recast ht]
      cases t'.kind with
      | letWord =>
          apply Finishes.after matches_take
          apply Finishes.of_bind (matches_require .ident)
          intro n n' hn
          apply Finishes.after (matches_require .assign)
          apply Finishes.of_bind (hmatches.expression 0)
          intro e e' he
          apply finishes_require
          simp only [stmtView, Stmt.recast, Option.map_some, hpos, Token.literal_of_recast hn]
          apply congrArg _ he
      | returnWord =>
          apply Finishes.after matches_take
          apply Finishes.of_bind (hmatches.expression 0)
          intro e e' he
          apply finishes_require
          simp only [stmtView, Stmt.recast, Option.map_some, hpos]
          apply congrArg _ he
      | lbrace =>
          apply finishes_skip (S := .block) (g := id) hmatches.block hsound.block rfl rfl
          exact fun _ _ h => h
      | _ =>
          apply finishes_skip (S := .expr 0) (g := Stmt.expr (some t.pos))
            (hmatches.expression 0) hsound.expression.loosest rfl rfl
          intro e e' he
          simp only [stmtView, Stmt.recast, Option.map_some, hpos]
          apply congrArg _ he

end

/-! ### All statements of a text -/

section

variable (place : Pos → Pos) (limit : Nat)

/-- Reading statements up to the end of the stream gives these statements, up to positions, within
any bound that is large enough. -/
def Reads (s : TokenStream) (views : List Stmt) : Prop :=
  ∀ bound : List Token, s.left < bound.length →
    ∃ ss s₁, (upToIn .eof (statement limit) bound).run s = .ok ss s₁
      ∧ ss.map (stmtView place) = views

end

section

variable {place : Pos → Pos} {further s s' : TokenStream} {limit : Nat}

theorem Leads.left (h : Leads place further s s') :
  s'.left = s.left + further.left
  := by
  obtain ⟨-, w, rfl, hw⟩ := h
  have hlength := congrArg List.length hw
  rw [List.length_map, List.length_map] at hlength
  rw [TokenStream.left_prepend, hlength]
  rfl

/-- A statement leaves fewer tokens. -/
theorem left_lt_of_statement {a : Stmt} {s₁ : TokenStream} (hs : s.Ended)
    (h : (statement limit).run s = .ok a s₁) :
  s₁.left < s.left
  := by
  apply (Routine.takes (r := .statement) hs h).fewer

/-- Before the end of input, the loop reads one more item. -/
theorem run_upToIn_eof {α : Type} {item : Reader α} (t : Token) (bound : List Token)
    (hk : s.head.kind ≠ .eof) :
  (upToIn .eof item (t :: bound)).run s
    = (item >>= fun a => upToIn .eof item bound >>= fun rest => pure (a :: rest)).run s
  := by
  rw [upToIn, run_if_nextIs_of_ne hk, run_if_nextIs_of_ne hk]

/-- The statements of a closed text come before those of the text that follows. -/
theorem Reads.of_leads {views : List Stmt} (hfurther : Reads place limit further views)
    (hs : Leads place further s s') (hclosed : s.isClosed = true) {bound : List Token}
    {ss : List Stmt} {s₁ : TokenStream}
    (h : (upToIn .eof (statement limit) bound).run s = .ok ss s₁) :
  Reads place limit s' (ss.map (stmtView place) ++ views)
  := by
  induction bound generalizing s s' ss with
  | nil => cases h
  | cons _ bound ih =>
      by_cases hk : s.head.kind = .eof
      · -- The text has no more statements, and the next one is ahead.
        rw [upToIn, run_if_nextIs_of_eq hk] at h
        cases h
        obtain ⟨hended, w, rfl, hw⟩ := hs
        rw [hended.ahead_eq_nil hk] at hw
        rw [List.map_eq_nil_iff.mp hw]
        apply hfurther
      · rw [run_upToIn_eof _ _ hk] at h
        obtain ⟨a, s₂, ha, h⟩ := run_bind_eq_ok.mp h
        obtain ⟨as, s₃, has, h⟩ := run_bind_eq_ok.mp h
        cases h
        have hfinishes : Finishes place further (stmtView place) (statement limit) _ :=
          finishes_statement limit
        obtain ⟨a', s₂', ha', hview, hs₂⟩ := hfinishes.run s s' a s₂ hs hclosed ha
        have hlater := ((advancesAt limit).statement.forward hs.ended).later
        rw [ha] at hlater
        have hrest := ih hs₂ (TokenStream.isClosed_later hclosed hlater) has
        have hne := hfinishes.needs s a s₂ hs.ended ha
        have hk' : s'.head.kind ≠ .eof := by
          rw [← Token.kind_of_recast (hs.head fun hnil => absurd hnil hne)]
          apply hk
        have hless : s₂'.left < s'.left := by
          rw [hs.left, hs₂.left]
          apply Nat.add_lt_add_right (left_lt_of_statement hs.ended ha)
        intro bound' hbound'
        cases bound' with
        | nil => cases hbound'
        | cons _ bound' =>
            rw [List.length_cons] at hbound'
            obtain ⟨as', s₃', has', hviews⟩ := hrest bound' (by omega)
            refine ⟨a' :: as', s₃', ?_, ?_⟩
            · rw [run_upToIn_eof _ _ hk', run_bind_of_ok ha', run_bind_of_ok has']
              rfl
            · rw [List.map_cons, List.map_cons, List.cons_append, hviews, hview]

/-- The statements of the last text are read wherever it stands. -/
theorem reads_of_tied (hs : Leads place further s s') (htied : Tied place further s)
    {ss : List Stmt} {s₁ : TokenStream}
    (h : (upToIn .eof (statement limit) s.bound).run s = .ok ss s₁) :
  Reads place limit s' (ss.map (stmtView place))
  := by
  intro bound hbound
  have hlength : s.bound.length ≤ bound.length := by
    rw [hs.left] at hbound
    rw [TokenStream.length_bound]
    omega
  have hmatches : Matches place further _ (upToIn .eof (statement limit) s.bound) _ :=
    matches_upToIn (matchesAt (Nat.le_refl limit)).statement s.bound bound hlength
  have hlater := hmatches.later s hs.ended
  have hrun := hmatches.run s s' hs
  rw [h] at hlater hrun
  obtain ⟨ss', s₁', h', hviews, -⟩ := (hrun ⟨nofun, fun _ => htied.later hlater⟩).of_ok
  exact ⟨ss', s₁', h', hviews.symm⟩

end

end Reader

/-! ### Texts -/

/-- The one position that stands for all where positions do not matter. -/
def Pos.anywhere (_ : Pos) : Pos := Pos.start

namespace TokenStream

/-- The forms of the tokens of a stream, up to and including the end of input. -/
def forms (s : TokenStream) : List (Kind × String) := s.tokens.map Token.form

theorem forms_ofSource (source : String) :
  (ofSource source).forms = ExprScript.forms source.toList
  := map_form_tokensOf source

theorem dropLast_forms (s : TokenStream) :
  s.forms.dropLast = s.ahead.map Token.form
  := by
  rw [forms, tokens, List.map_append, List.map_singleton, List.dropLast_concat]

theorem forms_eq_concat (s : TokenStream) :
  s.forms = s.forms.dropLast ++ [s.last.form]
  := by
  rw [dropLast_forms, forms, tokens, List.map_append, List.map_singleton]

theorem recast_of_forms {v w : List Token} (h : v.map Token.form = w.map Token.form) :
  v.map (Token.recast Pos.anywhere) = w.map (Token.recast Pos.anywhere)
  := by
  have hform : Token.recast Pos.anywhere = (fun f => ⟨f.1, f.2, Pos.start⟩) ∘ Token.form := rfl
  rw [hform, ← List.map_map, h, List.map_map]

/-- A stream with the forms of a text and then others leads from the text to what is further. -/
theorem exists_further {s t : TokenStream} (hs : s.Ended) {rest : List (Kind × String)}
    (hrest : rest ≠ []) (h : t.forms = s.forms.dropLast ++ rest) :
  ∃ further, further.forms = rest ∧ Reader.Leads Pos.anywhere further s t
  := by
  have hahead : t.ahead.map Token.form = s.ahead.map Token.form ++ rest.dropLast := by
    rw [← dropLast_forms t, h, List.dropLast_append_of_ne_nil hrest, dropLast_forms]
  obtain ⟨w, v, hwv, hw, hv⟩ := List.map_eq_append_iff.mp hahead
  refine ⟨⟨v, t.last⟩, ?_, hs, w, ?_, recast_of_forms hw⟩
  · have hforms : w.map Token.form ++ forms ⟨v, t.last⟩ = w.map Token.form ++ rest := by
      rw [hw, ← dropLast_forms s, ← h]
      simp [forms, tokens, hwv, hw]
    apply List.append_cancel_left hforms
  · rw [prepend, ← hwv]

/-- A stream without tokens ahead is where any stream with the same end of input ends. -/
theorem tied_of_forms {s further : TokenStream} (h : further.forms = [s.last.form]) :
  Reader.Tied Pos.anywhere further s
  := by
  obtain ⟨ahead, last⟩ := further
  cases ahead with
  | nil => exact ⟨rfl, Token.recast_of_form (List.cons.inj h).1⟩
  | cons t ts => simp [forms, tokens] at h

end TokenStream

namespace Program

open Reader

/-- The texts are read as the programs, one by one. -/
inductive ReadAll (limit : Nat) : List String → List Program → Prop
  | nil : ReadAll limit [] []
  | cons {source p sources ps} : read limit source = .ok p → ReadAll limit sources ps →
      ReadAll limit (source :: sources) (p :: ps)

theorem exists_readAll {limit : Nat} {sources : List String}
    (h : ∀ t ∈ sources, ∃ p, read limit t = .ok p) :
  ∃ ps, ReadAll limit sources ps
  := by
  induction sources with
  | nil => exact ⟨[], .nil⟩
  | cons source sources ih =>
      obtain ⟨p, hp⟩ := h source List.mem_cons_self
      obtain ⟨ps, hps⟩ := ih fun t ht => h t (List.mem_cons_of_mem _ ht)
      exact ⟨p :: ps, .cons hp hps⟩

theorem run_upToIn_of_read {limit : Nat} {source : String} {p : Program}
    (h : read limit source = .ok p) :
  ∃ s, (upToIn .eof (Reader.statement limit) (TokenStream.ofSource source).bound).run
    (TokenStream.ofSource source) = .ok p.statements s
  := by
  obtain ⟨s, hs⟩ := read_eq_ok.mp h
  obtain ⟨ss, s₁, hss, hs⟩ := run_bind_eq_ok.mp hs
  cases hs
  exact ⟨s, hss⟩

theorem legal_of_read {limit : Nat} {source : String} {p : Program}
    (h : read limit source = .ok p) :
  ∀ f ∈ forms source.toList, f.1 ≠ .illegal
  := by
  rw [← map_form_tokensOf]
  intro f hf
  obtain ⟨t, ht, rfl⟩ := List.mem_map.mp hf
  apply (derives_of_read h).legal t ht

/-- Texts on lines of their own are read one after the other wherever their tokens stand. -/
theorem reads_joined {limit : Nat} {sources : List String} {ps : List Program}
    (hread : ReadAll limit sources ps) (hne : sources ≠ [])
    (hclosed : ∀ t ∈ sources.dropLast, (TokenStream.ofSource t).isClosed = true) {s : TokenStream}
    (hs : s.forms = forms ("\n".intercalate sources).toList) :
  Reads Pos.anywhere limit s ((ps.flatMap statements).map (stmtView Pos.anywhere))
  := by
  induction hread generalizing s with
  | nil => apply absurd rfl hne
  | @cons source p sources ps hp hps ih =>
      have hended := TokenStream.ofSource_ended source
      obtain ⟨s₁, hrun⟩ := run_upToIn_of_read hp
      cases sources with
      | nil =>
          -- The last text leads to the end of input.
          cases hps
          rw [String.intercalate_singleton, ← TokenStream.forms_ofSource] at hs
          rw [TokenStream.forms_eq_concat (TokenStream.ofSource source)] at hs
          obtain ⟨further, hfurther, hleads⟩ :=
            TokenStream.exists_further hended (List.cons_ne_nil _ _) hs
          simpa using reads_of_tied hleads (TokenStream.tied_of_forms hfurther) hrun
      | cons next sources =>
          rw [String.intercalate_cons_cons, String.toList_append, String.toList_append,
            List.append_assoc] at hs
          rw [show "\n".toList = ['\n'] from rfl, List.singleton_append,
            forms_append _ (legal_of_read hp), ← TokenStream.forms_ofSource] at hs
          obtain ⟨further, hfurther, hleads⟩ :=
            TokenStream.exists_further hended (forms_ne_nil _) hs
          have hrest := ih (by simp) (fun t ht => hclosed t (List.mem_cons_of_mem _ ht)) hfurther
          rw [List.flatMap_cons, List.map_append]
          apply hrest.of_leads hleads _ hrun
          apply hclosed source List.mem_cons_self

/-- Texts on lines of their own are read as one program with the statements of all of them. -/
theorem read_joined {limit : Nat} {sources : List String} {ps : List Program}
    (hread : ReadAll limit sources ps) (hne : sources ≠ [])
    (hclosed : ∀ t ∈ sources.dropLast, (TokenStream.ofSource t).isClosed = true) :
  ∃ p, read limit ("\n".intercalate sources) = .ok p
    ∧ p.statements.map (stmtView Pos.anywhere)
      = (ps.flatMap statements).map (stmtView Pos.anywhere)
  := by
  obtain ⟨ss, s₁, h, hviews⟩ := reads_joined hread hne hclosed (TokenStream.forms_ofSource _) _
    (TokenStream.left_lt_length_bound _)
  exact ⟨⟨ss⟩, read_eq_ok.mpr ⟨s₁, run_bind_eq_ok.mpr ⟨ss, s₁, h, rfl⟩⟩, hviews⟩

end Program

end ExprScript
