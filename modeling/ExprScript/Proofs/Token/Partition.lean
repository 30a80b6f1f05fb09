import ExprScript.Proofs.Token.Longest

/-!
# Source texts in pieces

A source text is a sequence of pieces, each of which is trivia and then the text of one token, with
trivia after the last piece.  The tokens are read off the pieces one by one: every character of the
text belongs to one piece, and the place of a token is found by counting the characters in front of
it.
-/

namespace ExprScript

/-! ### Places -/

/-- The position counts the lines and columns of a text in front of it: one line for every line
feed, and one column for every character behind the last line feed. -/
structure Pos.Behind (text : List Char) (p : Pos) : Prop where
  line : p.line = 1 + text.count '\n'
  col : p.col = 1 + (text.reverse.takeWhile (· ≠ '\n')).length

theorem Pos.behind_start :
  Pos.start.Behind []
  := ⟨rfl, rfl⟩

theorem Pos.Behind.step {text : List Char} {p : Pos} (h : p.Behind text) (c : Char) :
  (p.step c).Behind (text ++ [c])
  := by
  obtain ⟨hline, hcol⟩ := h
  by_cases hc : c = '\n'
  · subst hc
    constructor
    · simp [Pos.step, hline, Int.add_assoc]
    · simp [Pos.step]
  · constructor
    · simp [Pos.step, hc, hline]
    · simp [Pos.step, hc, hcol, Int.add_assoc]

/-- A text that starts where another one ends leads behind both. -/
theorem Pos.Behind.after {before : List Char} {p : Pos} (h : p.Behind before) (text : List Char) :
  (p.after text).Behind (before ++ text)
  := by
  induction text generalizing before p with
  | nil =>
      rw [List.append_nil]
      apply h
  | cons c text ih =>
      rw [← List.singleton_append, ← List.append_assoc]
      apply ih (h.step c)

/-! ### Pieces -/

/-- The cursor behind a text, in front of another one. -/
def Cursor.behind (before rest : List Char) : Cursor :=
  ⟨rest, before.length, Pos.start.after before⟩

/-- A piece of a source text: trivia, the text of a token behind them, and the token. -/
structure Piece where
  gap : List Char
  text : List Char
  token : Token

/-- All text of a piece. -/
def Piece.whole (p : Piece) : List Char := p.gap ++ p.text

/-- Between two texts a piece is what a source text goes on with: the longest run of trivia, and
the text that longest match cuts off behind them.  The cursor reads its token there, and moves from
the text before to the text after. -/
structure Piece.Fits (p : Piece) (before rest : List Char) : Prop where
  gap : Longest IsTrivia (p.whole ++ rest) p.gap
  cut : Cuts (p.text ++ rest) p.token.kind p.token.literal p.text
  proper : p.token.kind ≠ .eof
  pos : p.token.pos.Behind (before ++ p.gap)
  read : (Cursor.behind before (p.whole ++ rest)).next
    = (p.token, Cursor.behind (before ++ p.whole) rest)

/-- A source text behind another text is made of pieces and, after the last one, of trivia, where
the cursor reads the end of input. -/
structure Partition (before source : List Char) (pieces : List Piece) (tail : List Char)
    (last : Token) : Prop where
  whole : source = pieces.flatMap Piece.whole ++ tail
  fits : ∀ done p left, pieces = done ++ p :: left →
    p.Fits (before ++ done.flatMap Piece.whole) (left.flatMap Piece.whole ++ tail)
  blank : IsTrivia tail
  ending : last.kind = .eof ∧ last.literal = "" ∧ last.pos.Behind (before ++ source)
  read : (Cursor.behind (before ++ pieces.flatMap Piece.whole) tail).next
    = (last, Cursor.behind (before ++ source) [])

namespace Cursor

theorem skip_behind (before text rest : List Char) :
  (behind before (text ++ rest)).skip text = behind (before ++ text) rest
  := by
  simp [skip, behind, Pos.after_append]

theorem skipTrivia_behind {before text rest : List Char} (h : trivia false text ++ rest = text) :
  (behind before text).skipTrivia = behind (before ++ trivia false text) rest
  := by
  have hskip := skip_behind before (trivia false text) rest
  rw [h] at hskip
  apply hskip

/-- Where only trivia are left, the end of input is read. -/
theorem next_of_trivia (before : List Char) {text : List Char} (h : trivia false text = text) :
  (behind before text).next
    = (⟨.eof, "", Pos.start.after (before ++ text)⟩, behind (before ++ text) [])
  := by
  have hskip : (behind before text).skipTrivia = behind (before ++ text) [] := by
    have hall : trivia false text ++ [] = text := by rw [List.append_nil, h]
    rw [skipTrivia_behind hall, h]
  rw [next, hskip]
  rfl

/-- Behind the trivia the lexeme at the front of what follows is read. -/
theorem next_of_front (before : List Char) {text xs : List Char} {x : Char}
    (h : trivia false text ++ x :: xs = text) {rest : List Char}
    (hrest : (Lexeme.front x xs).text ++ rest = x :: xs) :
  (behind before text).next
    = (⟨(Lexeme.front x xs).kind, (Lexeme.front x xs).literal,
          Pos.start.after (before ++ trivia false text)⟩,
        behind (before ++ (trivia false text ++ (Lexeme.front x xs).text)) rest)
  := by
  have hskip := skip_behind (before ++ trivia false text) (Lexeme.front x xs).text rest
  rw [hrest, List.append_assoc] at hskip
  rw [next, skipTrivia_behind h, ← hskip]
  rfl

/-- The end of input repeats. -/
theorem steps_of_last {c : Cursor} {last : Token} (h : c.next = (last, c)) (k : Nat) :
  (c.steps k).map Prod.fst = List.replicate k last
  := by
  induction k with
  | zero => rfl
  | succ k ih => rw [steps, List.map_cons, h, ih, List.replicate_succ]

end Cursor

/-! ### Partitions -/

/-- A text that is more than trivia starts with a piece. -/
theorem exists_piece {text xs : List Char} {x : Char} (before : List Char)
    (h : trivia false text ++ x :: xs = text) :
  ∃ (p : Piece) (rest : List Char), p.whole ++ rest = text ∧ p.Fits before rest
  := by
  obtain ⟨rest, hrest⟩ := (cuts_front x xs).front
  have hnext := Cursor.next_of_front before h hrest
  have hwhole : trivia false text ++ (Lexeme.front x xs).text ++ rest = text := by
    rw [List.append_assoc, hrest, h]
  refine ⟨⟨trivia false text, (Lexeme.front x xs).text, (Cursor.behind before text).next.1⟩,
    rest, hwhole, ?_⟩
  constructor
  · rw [Piece.whole, hwhole]
    apply longest_trivia
  · rw [hrest, hnext]
    apply cuts_front
  · rw [hnext]
    apply Lexeme.kind_front_ne_eof
  · rw [hnext]
    exact Pos.behind_start.after _
  · rw [Piece.whole, hwhole, hnext]

theorem partition_trivia {before text : List Char} (h : trivia false text = text) :
  Partition before text [] text ⟨.eof, "", Pos.start.after (before ++ text)⟩
  where
  whole := rfl
  fits done p left hnil := by cases done <;> cases hnil
  blank := h ▸ resumes_trivia false text
  ending := ⟨rfl, rfl, Pos.behind_start.after _⟩
  read := by
    rw [List.flatMap_nil, List.append_nil]
    apply Cursor.next_of_trivia before h

/-- A piece goes in front of the pieces of the text behind it. -/
theorem Partition.cons {before rest tail : List Char} {p : Piece} {pieces : List Piece}
    {last : Token} (hp : p.Fits before rest)
    (h : Partition (before ++ p.whole) rest pieces tail last) :
  Partition before (p.whole ++ rest) (p :: pieces) tail last
  where
  whole := by rw [List.flatMap_cons, List.append_assoc, ← h.whole]
  fits done q left heq := by
    cases done with
    | nil =>
        cases heq
        rw [List.flatMap_nil, List.append_nil, ← h.whole]
        apply hp
    | cons p' done =>
        obtain ⟨rfl, hleft⟩ := List.cons.inj heq
        rw [List.flatMap_cons, ← List.append_assoc]
        apply h.fits done q left hleft
  blank := h.blank
  ending := by
    rw [← List.append_assoc]
    apply h.ending
  read := by
    rw [List.flatMap_cons, ← List.append_assoc, ← List.append_assoc]
    apply h.read

/-- The tokens from a cursor on are those of some pieces, and then the end of input, which
repeats. -/
structure Cursor.Lists (c : Cursor) (pieces : List Piece) (last : Token) : Prop where
  stream : c.stream = ⟨pieces.map Piece.token, last⟩
  steps : ∀ k, (c.steps (pieces.length + k)).map Prod.fst
    = pieces.map Piece.token ++ List.replicate k last

theorem lists_trivia {before text : List Char} (h : trivia false text = text) :
  (Cursor.behind before text).Lists [] ⟨.eof, "", Pos.start.after (before ++ text)⟩
  := by
  have hnext := Cursor.next_of_trivia before h
  have hlast := @Cursor.next_of_trivia (before ++ text) [] rfl
  rw [List.append_nil] at hlast
  constructor
  · rw [Cursor.stream, hnext]
    rfl
  · intro k
    cases k with
    | zero => rfl
    | succ k =>
        rw [List.length_nil, Nat.zero_add, Cursor.steps, List.map_cons, hnext,
          Cursor.steps_of_last hlast]
        rfl

theorem Cursor.Lists.cons {c : Cursor} {p : Piece} {pieces : List Piece} {last : Token}
    {c' : Cursor} (hp : p.token.kind ≠ .eof) (hnext : c.next = (p.token, c'))
    (h : c'.Lists pieces last) :
  c.Lists (p :: pieces) last
  := by
  constructor
  · rw [Cursor.stream, hnext, if_neg hp, h.stream]
    rfl
  · intro k
    rw [List.length_cons, Nat.succ_add, Cursor.steps, List.map_cons, hnext, h.steps]
    rfl

theorem exists_partition (before source : List Char) :
  ∃ pieces tail last, Partition before source pieces tail last
    ∧ (Cursor.behind before source).Lists pieces last
  := by
  obtain ⟨rest, htrivia⟩ := trivia_front false source
  cases rest with
  | nil =>
      rw [List.append_nil] at htrivia
      exact ⟨[], source, _, partition_trivia htrivia, lists_trivia htrivia⟩
  | cons x xs =>
      obtain ⟨p, rest, rfl, hp⟩ := exists_piece before htrivia
      have hshorter : rest.length < (p.whole ++ rest).length := by
        have hlength : 0 < p.text.length := List.length_pos_iff.mpr hp.cut.ne_nil
        simp only [Piece.whole, List.length_append]
        omega
      obtain ⟨pieces, tail, last, hpartition, hlists⟩ := exists_partition (before ++ p.whole) rest
      exact ⟨p :: pieces, tail, last, hpartition.cons hp, hlists.cons hp.proper hp.read⟩
termination_by source.length

/-- Source texts are cut into tokens by longest match.  Every source text is made of pieces with
trivia after the last one; each piece is the longest run of trivia and then the longest lexeme
there, or else what is illegal.  The tokens are those of the pieces in order, each at its place, and
then the end of input, which repeats. -/
theorem tokensOf_longest_match (source : String) :
  ∃ pieces tail last, Partition [] source.toList pieces tail last
    ∧ tokensOf source = pieces.map Piece.token ++ [last]
    ∧ ∀ k, ((Cursor.start source).steps (pieces.length + k)).map Prod.fst
      = pieces.map Piece.token ++ List.replicate k last
  := by
  obtain ⟨pieces, tail, last, hpartition, hlists⟩ := exists_partition [] source.toList
  refine ⟨pieces, tail, last, hpartition, ?_, hlists.steps⟩
  rw [tokensOf, TokenStream.ofSource]
  exact congrArg TokenStream.tokens hlists.stream

end ExprScript
