import ExprScript.Proofs.Eval.Recast
import ExprScript.Proofs.Reader.Joined
import ExprScript.Session

/-!
# Texts that are evaluated one by one

Several source texts can be evaluated one after the other in a session, or as one text that has
them on lines of their own.  Both come to the same, up to positions, if every text but the last
one ends in a semicolon or has no tokens: the statements that are read are the same, and they are
run one after the other in the same states.
-/

namespace ExprScript

open Stateful

namespace Session

/-- Evaluates the pending source text, and then further ones, up to the first failure.  The
results are those of all texts in order. -/
def evaluateAll (limit : Nat) : Session → List String → Except Fault (List Value) × Session
  | s, [] => s.evaluate limit
  | s, source :: sources =>
    match s.evaluate limit with
    | (.ok vs, s') =>
      let r := evaluateAll limit (s'.supply source) sources
      (r.1.map (vs ++ ·), r.2)
    | failed => failed

/-- What a session came to, as the end of a run. -/
def ending (r : Except Fault (List Value) × Session) :
    EStateM.Result Fault Machine (List Value) :=
  match r.1 with
  | .ok vs => .ok vs r.2.machine
  | .error e => .error e r.2.machine

/-- Runs programs one after the other, as a session does. -/
def programs (limit : Nat) : List Program → Eval (List Value)
  | [] => return []
  | p :: ps => do
    Eval.record (.parsed p.statements.length)
    let vs ← Eval.statements limit p.statements
    let ws ← programs limit ps
    return vs ++ ws

/-! ### Runs -/

theorem evaluate_of_read {limit : Nat} {s : Session} {source : String} {p : Program}
    (hs : s.pending = .ofSource source) (hp : Program.read limit source = .ok p) :
  ∃ rest, s.evaluate limit
    = match (Eval.statements limit p.statements).run
        (s.record (.parsed p.statements.length)).machine with
      | .ok vs m => (.ok vs, ⟨rest, m⟩)
      | .error e m => (.error e, ⟨rest, m⟩)
  := by
  obtain ⟨rest, hrun⟩ := Program.read_eq_ok.mp hp
  refine ⟨rest, ?_⟩
  rw [evaluate, hs, hrun]
  rfl

theorem evaluate_of_unread {limit : Nat} {s : Session} {source : String} {e : ReadFailure}
    (hs : s.pending = .ofSource source) (he : Program.read limit source = .error e) :
  ∃ rest, s.evaluate limit = (.error (.ofRead e), { s with pending := rest })
  := by
  obtain ⟨rest, hrun⟩ := Program.read_eq_error.mp he
  refine ⟨rest, ?_⟩
  rw [evaluate, hs, hrun]

theorem run_programs_cons (limit : Nat) (p : Program) (ps : List Program) (s : Session) :
  (programs limit (p :: ps)).run s.machine
    = (Eval.statements limit p.statements >>= fun vs =>
        programs limit ps >>= fun ws => pure (vs ++ ws)).run
        (s.record (.parsed p.statements.length)).machine
  := rfl

/-- Evaluating texts that are read runs the programs. -/
theorem ending_evaluateAll {limit : Nat} {source : String} {p : Program} {sources : List String}
    {ps : List Program} (hp : Program.read limit source = .ok p)
    (hps : Program.ReadAll limit sources ps) {s : Session} (hs : s.pending = .ofSource source) :
  ending (s.evaluateAll limit sources) = (programs limit (p :: ps)).run s.machine
  := by
  induction hps generalizing source p s with
  | nil =>
      obtain ⟨rest, heval⟩ := evaluate_of_read hs hp
      rw [evaluateAll, heval, run_programs_cons, EStateM.run_bind]
      cases (Eval.statements limit p.statements).run
          (s.record (.parsed p.statements.length)).machine with
      | error e m => rfl
      | ok vs m => simp [ending, programs]
  | @cons next q sources ps hq hps ih =>
      obtain ⟨rest, heval⟩ := evaluate_of_read hs hp
      rw [evaluateAll, heval, run_programs_cons, EStateM.run_bind]
      cases (Eval.statements limit p.statements).run
          (s.record (.parsed p.statements.length)).machine with
      | error e m => rfl
      | ok vs m =>
          have hrest : ending (evaluateAll limit ⟨.ofSource next, m⟩ sources)
              = (programs limit (q :: ps)).run m := ih hq rfl
          dsimp only [supply]
          rw [EStateM.run_bind, ← hrest]
          obtain ⟨outcome, s'⟩ := evaluateAll limit ⟨.ofSource next, m⟩ sources
          cases outcome <;> rfl

/-- Programs that are run one after the other have the mirror of all their statements. -/
theorem mirrors_programs (place : Pos → Pos) (limit : Nat) (ps : List Program) :
  Mirrors place (List.map (Value.recast place)) (programs limit ps)
    (Eval.statements limit
      ((ps.flatMap Program.statements).map (Stmt.recast (Option.map place) true)))
  := by
  induction ps with
  | nil => apply Eval.mirrors_pure
  | cons p ps ih =>
      rw [List.flatMap_cons, List.map_append, Eval.statements_append, programs]
      apply Eval.record_mirrors
      apply Eval.bind_mirrors (Eval.mirrors_statements place limit p.statements)
      intro vs
      apply Eval.bind_mirrors ih
      intro ws
      rw [← List.map_append]
      apply Eval.mirrors_pure

/-! ### What is the same -/

/-- Values that are the same up to positions, of the same kinds and with the same texts. -/
structure SameValues (vs ws : List Value) : Prop where
  values : vs.map (Value.recast Pos.anywhere) = ws.map (Value.recast Pos.anywhere)
  kinds : vs.map Value.kind = ws.map Value.kind
  texts : vs.map Value.text = ws.map Value.text
  shown : ∀ limit, vs.map (Value.render limit) = ws.map (Value.render limit)

/-- The same results, or the same fault up to positions. -/
inductive SameOutcome : Except Fault (List Value) → Except Fault (List Value) → Prop
  | ok {vs ws} : SameValues vs ws → SameOutcome (.ok vs) (.ok ws)
  | error {e e'} : e.recast Pos.anywhere = e'.recast Pos.anywhere →
      SameOutcome (.error e) (.error e')

/-- Two evaluations come to the same, have printed the same and leave the same bindings. -/
structure Agrees (r r' : Except Fault (List Value) × Session) : Prop where
  outcome : SameOutcome r.1 r'.1
  out : r.2.machine.out = r'.2.machine.out
  names : r.2.bindings.map Prod.fst = r'.2.bindings.map Prod.fst
  values : SameValues (r.2.bindings.map Prod.snd) (r'.2.bindings.map Prod.snd)

/-- What is not changed by other positions is the same of values that are the same up to
positions. -/
theorem map_eq_of_recast {α : Type} {f : Value → α} (hf : ∀ v, f (v.recast Pos.anywhere) = f v)
    {vs ws : List Value}
    (h : vs.map (Value.recast Pos.anywhere) = ws.map (Value.recast Pos.anywhere)) :
  vs.map f = ws.map f
  := by
  have hmap := congrArg (List.map f) h
  simpa only [List.map_map, Function.comp_def, hf] using hmap

theorem sameValues_of_recast {vs ws : List Value}
    (h : vs.map (Value.recast Pos.anywhere) = ws.map (Value.recast Pos.anywhere)) :
  SameValues vs ws
  := by
  constructor
  · apply h
  · apply map_eq_of_recast (Value.kind_recast _) h
  · apply map_eq_of_recast (Value.text_recast _) h
  · intro limit
    apply map_eq_of_recast (Value.render_recast _ limit) h

theorem bindings_recast (s : Session) :
  s.bindings.map (Value.recastEntry Pos.anywhere)
    = Dict.sorted ((s.machine.heap.recast Pos.anywhere).bindings Machine.root)
  := by
  rw [Heap.bindings_recast]
  apply List.map_mergeSort
  intro p _ q _
  rfl

theorem final_ending (r : Except Fault (List Value) × Session) :
  final (ending r) = r.2.machine
  := by
  obtain ⟨outcome, s⟩ := r
  cases outcome <;> rfl

theorem sameOutcome_of_recast {r r' : Except Fault (List Value) × Session}
    (h : recastRun Pos.anywhere (List.map (Value.recast Pos.anywhere)) #[] (ending r)
      = recastRun Pos.anywhere (List.map (Value.recast Pos.anywhere)) #[] (ending r')) :
  SameOutcome r.1 r'.1
  := by
  obtain ⟨outcome, s⟩ := r
  obtain ⟨outcome', s'⟩ := r'
  cases outcome with
  | ok vs =>
      cases outcome' with
      | ok ws => exact .ok (sameValues_of_recast (EStateM.Result.ok.inj h).1)
      | error e' => cases h
  | error e =>
      cases outcome' with
      | ok ws => cases h
      | error e' => exact .error (EStateM.Result.error.inj h).1

/-- Runs that end in the same up to positions and the log agree. -/
theorem agrees_of_recast {r r' : Except Fault (List Value) × Session}
    (h : recastRun Pos.anywhere (List.map (Value.recast Pos.anywhere)) #[] (ending r)
      = recastRun Pos.anywhere (List.map (Value.recast Pos.anywhere)) #[] (ending r')) :
  Agrees r r'
  := by
  have hmachine : r.2.machine.recast Pos.anywhere #[] = r'.2.machine.recast Pos.anywhere #[] := by
    have hfinal := congrArg final h
    rw [final_recastRun, final_recastRun, final_ending, final_ending] at hfinal
    apply hfinal
  have hbindings : r.2.bindings.map (Value.recastEntry Pos.anywhere)
      = r'.2.bindings.map (Value.recastEntry Pos.anywhere) := by
    rw [bindings_recast, bindings_recast]
    apply congrArg (fun h : Heap => Dict.sorted (h.bindings Machine.root))
    apply congrArg Machine.heap hmachine
  constructor
  · apply sameOutcome_of_recast h
  · apply congrArg Machine.out hmachine
  · have hnames := congrArg (List.map Prod.fst) hbindings
    rw [List.map_map, List.map_map] at hnames
    apply hnames
  · apply sameValues_of_recast
    have hvalues := congrArg (List.map Prod.snd) hbindings
    rw [List.map_map, List.map_map] at hvalues
    rw [List.map_map, List.map_map]
    apply hvalues

/-- Source texts that are evaluated one after the other in a session come to the same as one text
that has them on lines of their own, if all of them can be read, and all but the last end in a
semicolon or have no tokens. -/
theorem evaluateAll_joined {limit : Nat} {source : String} {sources : List String}
    (hread : ∀ t ∈ source :: sources, ∃ p, Program.read limit t = .ok p)
    (hclosed : ∀ t ∈ (source :: sources).dropLast, (TokenStream.ofSource t).isClosed = true) :
  Agrees ((start ("\n".intercalate (source :: sources))).evaluate limit)
    ((start source).evaluateAll limit sources)
  := by
  obtain ⟨_, hall⟩ := Program.exists_readAll hread
  cases hall with
  | @cons _ p _ ps hp hps =>
      obtain ⟨q, hq, hviews⟩ := Program.read_joined (.cons hp hps) (List.cons_ne_nil _ _) hclosed
      apply agrees_of_recast
      have hwhole : ending ((start ("\n".intercalate (source :: sources))).evaluate limit)
          = (programs limit [q]).run Machine.start :=
        ending_evaluateAll hq .nil rfl
      have hparts : ending ((start source).evaluateAll limit sources)
          = (programs limit (p :: ps)).run Machine.start :=
        ending_evaluateAll hp hps rfl
      rw [hwhole, hparts]
      -- Both have the mirror of the statements without positions.
      have hmirrors := mirrors_programs Pos.anywhere limit [q]
      have hstatements : q.statements.map (Stmt.recast (Option.map Pos.anywhere) true)
          = ((p :: ps).flatMap Program.statements).map (Stmt.recast (Option.map Pos.anywhere) true)
          := hviews
      rw [List.flatMap_singleton, hstatements] at hmirrors
      apply Eval.recastRun_eq hmirrors (mirrors_programs _ limit (p :: ps)) rfl

/-- A text that ends in a comment, one without tokens, one that makes a function, and one that calls
it and then fails. -/
theorem evaluateAll_joined_error :
  Agrees
    ((start
      "let x = 2; // two\n\nlet f = fn(a) \x7b a - x \x7d;\nprint(f(5)); f(1 / 0)").evaluate 20)
    ((start "let x = 2; // two").evaluateAll 20
      ["", "let f = fn(a) \x7b a - x \x7d;", "print(f(5)); f(1 / 0)"])
  := by
  have hread : ∀ t ∈ ["let x = 2; // two", "", "let f = fn(a) \x7b a - x \x7d;",
      "print(f(5)); f(1 / 0)"], ∃ p, Program.read 20 t = .ok p := by
    simp only [List.forall_mem_cons]
    refine ⟨?_, ?_, ?_, ?_, List.forall_mem_nil _⟩
    all_goals exact ⟨_, by with_unfolding_all rfl⟩
  have hclosed : ∀ t ∈ ["let x = 2; // two", "", "let f = fn(a) \x7b a - x \x7d;"],
      (TokenStream.ofSource t).isClosed = true := by
    simp only [List.forall_mem_cons]
    refine ⟨?_, ?_, ?_, List.forall_mem_nil _⟩
    all_goals with_unfolding_all rfl
  have hjoined : "\n".intercalate ["let x = 2; // two", "", "let f = fn(a) \x7b a - x \x7d;",
      "print(f(5)); f(1 / 0)"]
      = "let x = 2; // two\n\nlet f = fn(a) \x7b a - x \x7d;\nprint(f(5)); f(1 / 0)" := by decide
  rw [← hjoined]
  exact evaluateAll_joined hread hclosed

end Session

end ExprScript
