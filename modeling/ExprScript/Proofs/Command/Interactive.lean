import ExprScript.Command.Interactive
import ExprScript.Limit
import ExprScript.Proofs.Session.Frame
import ExprScript.Proofs.Session.Joined
import ExprScript.Proofs.Session.Safe

/-!
# The course of an interactive session

An interactive session goes on line by line, whatever the lines hold, until its input ends or a
line says `exit`, and then exits with 0.  A line that is refused or fails is reported once, and the
lines after it see the root bindings that the completed statements have left.  Two things break
the session off: a number with more digits than are ever read, and a result that is nested too
deeply to be shown.
-/

namespace ExprScript

namespace Command

open Eval Session

/-! ### What becomes of a line -/

/-- What a state has logged, if that is asked for, and printed. -/
def trace (verbose : Bool) (label : ScopeId → String) (m : Machine) : Output :=
  logLines verbose label ⟨.ofSource "", m⟩ ++ ⟨m.out, ""⟩

/-- The lines for the results of a program, units left out. -/
def shown : List Value → Output
  | [] => Output.empty
  | .unit :: vs => shown vs
  | v :: vs => Output.line v.text ++ shown vs

/-- A fault of evaluation that can be reported, and the reason that is given for it. -/
inductive Reported : Fault → String → Prop
  | error {e : EvalError} : e.cause.isSource = false → Reported (.error e) e.report
  | exhausted : Reported .exhausted "maximum recursion depth exceeded"

/-- The session waits for the next line in the root scope, with the root bindings of a state. -/
structure Awaits (m : Machine) (s : Session) : Prop where
  cursor : s.machine.cursor = Machine.root
  depth : s.machine.depth = 0
  bindings : s.machine.heap.bindings Machine.root = m.heap.bindings Machine.root
  out : s.machine.out = ""
  log : s.machine.log = #[]

section

variable (limit : Nat) (verbose : Bool) (label : ScopeId → String) (s : Session)
  (text : List Char)

/-- What a line that does not end the session makes it write, and the session after it. -/
inductive Played : Output → Session → Prop
  | blank : Blank.trim text = [] → Played Output.empty s
  | refused {e s'} : Program.read limit (String.ofList text) = .error (.refused e) →
      Awaits s.machine s' → Played (Output.errorLine ("jerboa: parse error: " ++ e.report)) s'
  | nested {s'} : Program.read limit (String.ofList text) = .error .exhausted →
      Awaits s.machine s' →
      Played (Output.errorLine "jerboa: runtime error: maximum recursion depth exceeded") s'
  /-- A statement fails after those before it have been completed. -/
  | failed {p before st after vs m f m' reason s'} :
      Program.read limit (String.ofList text) = .ok p → p.statements = before ++ st :: after →
      (statements limit before).run (s.record (.parsed p.statements.length)).machine = .ok vs m →
      (statement limit st).run m = .error f m' → Reported f reason → Awaits m s' →
      Played (trace verbose label m'
        ++ Output.errorLine ("jerboa: runtime error: " ++ reason)) s'
  | done {p vs m s'} : Program.read limit (String.ofList text) = .ok p →
      (statements limit p.statements).run (s.record (.parsed p.statements.length)).machine
        = .ok vs m →
      (∀ v ∈ vs, v = .unit ∨ v.fault? limit = none) → Awaits m s' →
      Played (trace verbose label m ++ shown vs) s'

/-- What in a line breaks the session off. -/
inductive Breaks : Fault → Prop
  | oversized {t} : Program.read limit (String.ofList text) = .error .oversized →
      t ∈ tokensOf (String.ofList text) → t.kind = .int → Reader.maxDigits < t.literal.length →
      Breaks .oversized
  | unshown {p vs m v} : Program.read limit (String.ofList text) = .ok p →
      (statements limit p.statements).run (s.record (.parsed p.statements.length)).machine
        = .ok vs m →
      v ∈ vs → v.fault? limit = some .exhausted → Breaks .exhausted

end

/-- The course of a session over the lines that are left of its input. -/
inductive Course (limit : Nat) (verbose : Bool) (label : ScopeId → String) :
    Session → List (List Char) → Outcome → Prop
  | ended {s} : Course limit verbose label s [] (.exiting 0 ⟨prompt ++ "\n", ""⟩)
  | exited {s text rest} : Blank.trim text = "exit".toList →
      Course limit verbose label s (text :: rest) (.exiting 0 ⟨prompt, ""⟩)
  | played {s text rest output s' o} : Blank.trim text ≠ "exit".toList →
      Played limit verbose label s text output s' → Course limit verbose label s' rest o →
      Course limit verbose label s (text :: rest) (o.after (⟨prompt, ""⟩ ++ output))
  | broken {s text rest f output} : Blank.trim text ≠ "exit".toList → Breaks limit s text f →
      Course limit verbose label s (text :: rest) (.failing f (⟨prompt, ""⟩ ++ output))

/-! ### Results -/

theorem render_eq (limit : Nat) (v : Value) :
  v.render limit = .ok v.text ∧ v.fault? limit = none
    ∨ ∃ e, v.render limit = .error e ∧ v.fault? limit = some e
  := by
  rw [Value.render]
  cases v.fault? limit with
  | none => exact .inl ⟨rfl, rfl⟩
  | some e => exact .inr ⟨e, rfl, rfl⟩

/-- Either all results are shown, or one of them cannot be. -/
theorem resultLines_cases (limit : Nat) (vs : List Value) :
  (resultLines limit vs = (shown vs, none) ∧ ∀ v ∈ vs, v = .unit ∨ v.fault? limit = none)
    ∨ ∃ lines e, resultLines limit vs = (lines, some (.ofRender e))
      ∧ ∃ v ∈ vs, v.fault? limit = some e
  := by
  induction vs with
  | nil => exact .inl ⟨rfl, nofun⟩
  | cons v vs ih =>
      by_cases hv : v = .unit
      · subst hv
        rcases ih with ⟨hrest, hall⟩ | ⟨lines, e, hrest, w, hw, he⟩
        · exact .inl ⟨hrest, List.forall_mem_cons.mpr ⟨.inl rfl, hall⟩⟩
        · exact .inr ⟨lines, e, hrest, w, List.mem_cons_of_mem _ hw, he⟩
      · rcases render_eq limit v with ⟨hrender, hfault⟩ | ⟨e, hrender, hfault⟩
        · rcases ih with ⟨hrest, hall⟩ | ⟨lines, e, hrest, w, hw, he⟩
          · refine .inl ⟨?_, List.forall_mem_cons.mpr ⟨.inr hfault, hall⟩⟩
            rw [resultLines, hrender, hrest, shown]
            · exact hv
            · exact hv
          · refine .inr ⟨Output.line v.text ++ lines, e, ?_, w, List.mem_cons_of_mem _ hw, he⟩
            rw [resultLines, hrender, hrest]
            exact hv
        · refine .inr ⟨Output.empty, e, ?_, v, List.mem_cons_self, hfault⟩
          rw [resultLines, hrender]
          exact hv

/-! ### Lines -/

/-- The session waits for the next line, in a state that it has come to by programs that were
read. -/
structure Ready (s : Session) : Prop where
  scopes : Rests (fun _ => Value.OfParsed) Scoped s
  values : Rests (fun _ => Value.Sane) (fun _ => True) s
  out : s.machine.out = ""
  log : s.machine.log = #[]

theorem ready_start :
  Ready (.start "")
  := ⟨rests_start Nat.one_pos "", rests_start trivial "", rfl, rfl⟩

/-- After a line has been evaluated, whatever it came to, the session waits for the next one. -/
theorem ready_flush {s : Session} (hs : Ready s) (source : String) (limit : Nat) :
  Ready ((s.supply source).evaluate limit).2.flush
  := by
  have hsteps : ∀ {E A J R S Good} (_ : Law E A J R S Good),
      (∀ {p : Program}, p.Parsed → ∀ st ∈ p.statements, Good 0 (.stmt st)) → Rests A J s →
      Rests A J ((s.supply source).evaluate limit).2.flush := by
    intro E A J R S Good law hread hrests
    have hsupplied := law.rests_step hread hrests (.supply source)
    have hevaluated := law.rests_step hread hsupplied (.evaluate limit)
    apply law.rests_step hread hevaluated .flush
  constructor
  · apply hsteps frame_law Program.Parsed.statements hs.scopes
  · apply hsteps safe_law Program.Parsed.statements hs.values
  · rfl
  · rfl

theorem Ready.awaits {s : Session} (hs : Ready s) {m : Machine}
    (h : s.machine.heap.bindings Machine.root = m.heap.bindings Machine.root) :
  Awaits m s
  := ⟨hs.scopes.cursor, hs.scopes.depth, h, hs.out, hs.log⟩

/-- What becomes of one line: it ends the session, or the session goes on after it, or it breaks the
session off. -/
inductive Handled (limit : Nat) (verbose : Bool) (label : ScopeId → String) (s : Session)
    (text : List Char) : Round → Prop
  | finished : Blank.trim text = "exit".toList → Handled limit verbose label s text .finished
  | proceed {s' output} : Blank.trim text ≠ "exit".toList →
      Played limit verbose label s text output s' → Ready s' →
      Handled limit verbose label s text (.proceed s' output)
  | broken {f output} : Blank.trim text ≠ "exit".toList → Breaks limit s text f →
      Handled limit verbose label s text (.broken f output)

/-- The rest of a round, once the line has been evaluated. -/
def outcome (limit : Nat) (verbose : Bool) (label : ScopeId → String)
    (r : Except Fault (List Value) × Session) : Round :=
  match r.1 with
  | .error fault =>
    match report? fault with
    | some text => .proceed r.2.flush (trace verbose label r.2.machine ++ Output.errorLine text)
    | none => .broken fault (trace verbose label r.2.machine)
  | .ok vs =>
    match resultLines limit vs with
    | (lines, none) => .proceed r.2.flush (trace verbose label r.2.machine ++ lines)
    | (lines, some fault) => .broken fault (trace verbose label r.2.machine ++ lines)

theorem round_eq {limit : Nat} {verbose : Bool} {label : ScopeId → String} {s : Session}
    {text : List Char} (hexit : Blank.trim text ≠ "exit".toList) (hblank : Blank.trim text ≠ []) :
  round limit verbose label s text
    = outcome limit verbose label ((s.supply (String.ofList text)).evaluate limit)
  := by
  rw [round, if_neg hexit, if_neg hblank]
  rfl

section

variable {limit : Nat} {verbose : Bool} {label : ScopeId → String} {s : Session}
  {text : List Char}

theorem append_eq (a b : Output) :
  a ++ b = ⟨a.out ++ b.out, a.err ++ b.err⟩
  := rfl

variable (verbose label) in
/-- A session that waits has written nothing. -/
theorem trace_append (hs : Ready s) (output : Output) :
  trace verbose label s.machine ++ output = output
  := by
  have hlog : logLines verbose label ⟨.ofSource "", s.machine⟩ = Output.empty := by
    rw [logLines, hs.log]
    cases verbose <;> rfl
  rw [trace, hlog, hs.out]
  simp [append_eq, Output.empty]

/-- A line that cannot be read is reported, unless it holds a number that is too long. -/
theorem handled_unread (hs : Ready s) (hexit : Blank.trim text ≠ "exit".toList)
    {e : ReadFailure} {rest : TokenStream}
    (hread : (Reader.program limit).run (.ofSource (String.ofList text)) = .error e rest)
    (hready : Ready (Session.flush ⟨rest, s.machine⟩)) :
  Handled limit verbose label s text
    (outcome limit verbose label (.error (.ofRead e), ⟨rest, s.machine⟩))
  := by
  have hreads := Program.read_eq_error.mpr ⟨rest, hread⟩
  have hawaits : Awaits s.machine (Session.flush ⟨rest, s.machine⟩) := hready.awaits rfl
  cases e with
  | refused e =>
      refine .proceed hexit ?_ hready
      have hplayed : Played limit verbose label s text _ _ := .refused hreads hawaits
      rw [← trace_append verbose label hs (Output.errorLine _)] at hplayed
      apply hplayed
  | exhausted =>
      refine .proceed hexit ?_ hready
      have hplayed : Played limit verbose label s text _ _ := .nested hreads hawaits
      rw [← trace_append verbose label hs (Output.errorLine _)] at hplayed
      apply hplayed
  | oversized =>
      have hended := TokenStream.ofSource_ended (String.ofList text)
      cases (Reader.advances_program limit _ hended).stops hread with
      | oversized hlater hk hlong =>
          refine .broken hexit (.oversized hreads ?_ hk hlong)
          apply List.mem_append_left
          apply hlater.ahead.subset List.mem_cons_self

/-- An evaluation error is reported in its own words, after the kind that it is of. -/
theorem report?_error (e : EvalError) :
  report? (.error e)
    = some ((if e.cause.isSource then "jerboa: parse error: " else "jerboa: runtime error: ")
      ++ e.report)
  := by
  obtain ⟨cause, pos⟩ := e
  cases cause <;> rfl

theorem report?_eq {f : Fault} {reason : String} (h : Reported f reason) :
  report? f = some ("jerboa: runtime error: " ++ reason)
  := by
  cases h with
  | exhausted => decide
  | error hcause =>
      rw [report?_error, hcause]
      rfl

/-- Of the faults that a program can end with once it is read, all are reported. -/
theorem exists_reported (hs : Rests (fun _ => Value.Sane) (fun _ => True) s) {f : Fault}
    {s₁ : Session} (h : s.evaluate limit = (.error f, s₁)) {p : Program} {rest : TokenStream}
    (hread : (Reader.program limit).run s.pending = .ok p rest) :
  ∃ reason, Reported f reason
  := by
  have houtcome : Checked.Outcome limit s _ := Checked.outcome_of_rests hs
  rw [h] at houtcome
  cases houtcome with
  | refused hrefused => cases hread.symm.trans hrefused
  | oversized hlong => cases hread.symm.trans hlong
  | exhausted => exact ⟨_, .exhausted⟩
  | error _ hcause => exact ⟨_, .error hcause⟩

/-- A line with a statement that fails is reported. -/
theorem handled_failed (hs : Ready s) (hexit : Blank.trim text ≠ "exit".toList) {f : Fault}
    {s₁ : Session} (h : (s.supply (String.ofList text)).evaluate limit = (.error f, s₁))
    {p : Program} {rest : TokenStream}
    (hread : (Reader.program limit).run (.ofSource (String.ofList text)) = .ok p rest)
    (hready : Ready s₁.flush) :
  Handled limit verbose label s text (outcome limit verbose label (.error f, s₁))
  := by
  have hreads := Program.read_eq_ok.mpr ⟨rest, hread⟩
  have hscopes := frame_law.rests_step Program.Parsed.statements hs.scopes
    (.supply (String.ofList text))
  have hvalues := safe_law.rests_step Program.Parsed.statements hs.values
    (.supply (String.ofList text))
  cases leaves_of_error hscopes h with
  | unread hunread => cases hread.symm.trans hunread
  | @failed q rest' before st after vs m hread' hss _ hbefore hst hbindings =>
      cases hread.symm.trans hread'
      have hawaits : Awaits m s₁.flush := hready.awaits hbindings
      obtain ⟨reason, hreported⟩ := exists_reported hvalues h hread
      rw [outcome]
      dsimp only
      rw [report?_eq hreported]
      exact .proceed hexit (.failed hreads hss hbefore hst hreported hawaits) hready

/-- A line whose statements are all run has its results shown, unless one of them is nested too
deeply. -/
theorem handled_done (hs : Ready s) (hexit : Blank.trim text ≠ "exit".toList) {vs : List Value}
    {s₁ : Session} (h : (s.supply (String.ofList text)).evaluate limit = (.ok vs, s₁))
    {p : Program} {rest : TokenStream}
    (hread : (Reader.program limit).run (.ofSource (String.ofList text)) = .ok p rest)
    (hrun : (statements limit p.statements).run (s.record (.parsed p.statements.length)).machine
      = .ok vs s₁.machine)
    (hready : Ready s₁.flush) :
  Handled limit verbose label s text (outcome limit verbose label (.ok vs, s₁))
  := by
  have hreads := Program.read_eq_ok.mpr ⟨rest, hread⟩
  rcases resultLines_cases limit vs with ⟨hlines, hall⟩ | ⟨lines, e, hlines, v, hv, he⟩
  · rw [outcome]
    dsimp only
    rw [hlines]
    exact .proceed hexit (.done hreads hrun hall (hready.awaits rfl)) hready
  · have hvalues := safe_law.rests_step Program.Parsed.statements hs.values
      (.supply (String.ofList text))
    have hsettles := safe_law.settles_step Program.Parsed.statements hvalues (.evaluate limit)
    rw [step, step, h] at hsettles
    have hexhausted : e = .exhausted := Value.fault?_eq (hsettles.results vs rfl v hv) he
    subst hexhausted
    rw [outcome]
    dsimp only
    rw [hlines]
    exact .broken hexit (.unshown hreads hrun hv he)

end

theorem handled_round {limit : Nat} {verbose : Bool} {label : ScopeId → String} {s : Session}
    (hs : Ready s) (text : List Char) :
  Handled limit verbose label s text (round limit verbose label s text)
  := by
  by_cases hexit : Blank.trim text = "exit".toList
  · rw [round, if_pos hexit]
    exact .finished hexit
  · by_cases hblank : Blank.trim text = []
    · rw [round, if_neg hexit, if_pos hblank]
      exact .proceed hexit (.blank hblank) hs
    · rw [round_eq hexit hblank]
      have hready := ready_flush hs (String.ofList text) limit
      have hevaluated := evaluated limit (s.supply (String.ofList text))
      generalize heval : (s.supply (String.ofList text)).evaluate limit = r at hevaluated hready
      cases hevaluated with
      | unread hread => apply handled_unread hs hexit hread hready
      | failed hread _ => apply handled_failed hs hexit heval hread hready
      | done hread hrun => apply handled_done hs hexit heval hread hrun hready

/-- A session that waits for its next line takes its course. -/
theorem course_rounds {limit : Nat} {verbose : Bool} {label : ScopeId → String}
    {lines : List (List Char)} {s : Session} (hs : Ready s) :
  Course limit verbose label s lines (rounds limit verbose label s lines)
  := by
  induction lines generalizing s with
  | nil => exact .ended
  | cons text rest ih =>
      have hhandled : Handled limit verbose label s text _ := handled_round hs text
      rw [rounds]
      generalize round limit verbose label s text = r at hhandled ⊢
      cases hhandled with
      | finished hexit => exact .exited hexit
      | proceed hexit hplayed hready => exact .played hexit hplayed (ih hready)
      | broken hexit hbreaks => exact .broken hexit hbreaks

/-- A session exits with 0, unless one of its lines breaks it off. -/
theorem Course.exit {limit : Nat} {verbose : Bool} {label : ScopeId → String}
    {lines : List (List Char)} {s : Session} {o : Outcome}
    (h : Course limit verbose label s lines o) :
  o.exit = .ok 0 ∨ ∃ text ∈ lines, ∃ s' f, Breaks limit s' text f ∧ o.exit = .error f
  := by
  induction h with
  | ended | exited _ => exact .inl rfl
  | broken _ hbreaks => exact .inr ⟨_, List.mem_cons_self, _, _, hbreaks, rfl⟩
  | played _ _ _ ih =>
      rcases ih with ih | ⟨text, htext, s', f, hbreaks, ih⟩
      · exact .inl ih
      · exact .inr ⟨text, List.mem_cons_of_mem _ htext, s', f, hbreaks, ih⟩

/-- An interactive session takes its course over the lines of its input, and exits with 0 unless a
line breaks it off. -/
theorem interactive_course (limit : Nat) (verbose : Bool) (label : ScopeId → String)
    (input : String) :
  Course limit verbose label (.start "") (Blank.lines input.toList)
      (interactive limit verbose label input)
    ∧ ((interactive limit verbose label input).exit = .ok 0
      ∨ ∃ text ∈ Blank.lines input.toList, ∃ s f,
        Breaks limit s text f ∧ (interactive limit verbose label input).exit = .error f)
  := by
  have hcourse : Course limit verbose label (.start "") (Blank.lines input.toList)
      (interactive limit verbose label input) := course_rounds ready_start
  exact ⟨hcourse, hcourse.exit⟩

end Command

/-! ### A number that is too long -/

namespace Blank

/-- A line ends with its line feed. -/
theorem lines_append {line : List Char} (h : '\n' ∉ line) (rest : List Char) :
  lines (line ++ '\n' :: rest) = (line ++ ['\n']) :: lines rest
  := by
  induction line with
  | nil => rw [List.nil_append, lines, if_pos rfl, List.nil_append]
  | cons c line ih =>
      rw [List.mem_cons, not_or] at h
      rw [List.cons_append, lines, if_neg (Ne.symm h.1), ih h.2]
      rfl

end Blank

namespace Reader

open Stateful

variable {s : TokenStream} (hk : s.head.kind = .int) (hlong : maxDigits < s.head.literal.length)
include hk hlong

/-- A number with too many digits is not read. -/
theorem run_operand_of_long (limit : Nat) :
  (operand (limit + 1)).run s = .error .oversized s.tail
  := by
  rw [operand, run_bind_of_ok (run_next s), hk]
  dsimp only
  rw [run_bind_of_ok (run_take s), number, if_pos hlong]
  rfl

theorem run_statement_of_long (limit : Nat) :
  (statement (limit + 3)).run s = .error .oversized s.tail
  := by
  have hoperand := run_operand_of_long hk hlong limit
  have hexpression : (expression (limit + 2) 0).run s = .error .oversized s.tail := by
    rw [expression, run_bind_of_error hoperand]
  rw [statement, run_bind_of_ok (run_next s), hk]
  dsimp only
  rw [run_bind_of_error hexpression]

theorem run_program_of_long (limit : Nat) :
  (program (limit + 3)).run s = .error .oversized s.tail
  := by
  have hstatement := run_statement_of_long hk hlong limit
  have hupTo : (upTo .eof (statement (limit + 3))).run s = .error .oversized s.tail := by
    have heof : s.head.kind ≠ .eof := by
      rw [hk]
      decide
    rw [upTo, run_get_bind, TokenStream.bound, run_upToIn_eof _ _ heof,
      run_bind_of_error hstatement]
  rw [program, run_bind_of_error hupTo]

end Reader

namespace Command

open Session

/-- A line of ones. -/
def ones (count : Nat) : List Char := List.replicate count '1' ++ ['\n']

theorem trim_ones (count : Nat) :
  Blank.trim (ones (count + 1)) = List.replicate (count + 1) '1'
  := by
  have hone : Blank.isBlank '1' = false := by decide
  have hfeed : Blank.isBlank '\n' = true := by decide
  have hones : List.dropWhile Blank.isBlank (List.replicate (count + 1) '1')
      = List.replicate (count + 1) '1' := by
    rw [List.replicate_succ, List.dropWhile_cons_of_neg (by simp [hone])]
  have hfirst : (ones (count + 1)).dropWhile Blank.isBlank = ones (count + 1) := by
    rw [ones, List.replicate_succ, List.cons_append, List.dropWhile_cons_of_neg (by simp [hone])]
  have hreverse : (ones (count + 1)).reverse = '\n' :: List.replicate (count + 1) '1' := by
    rw [ones, List.reverse_append, List.reverse_replicate]
    rfl
  rw [Blank.trim, hfirst, hreverse, List.dropWhile_cons_of_pos hfeed, hones,
    List.reverse_replicate]

theorem forms_ones (count : Nat) :
  forms (ones (count + 1)) = [(.int, String.ofList (List.replicate (count + 1) '1')), (.eof, "")]
  := by
  have hfeed : forms ['\n'] = [(.eof, "")] := by
    apply forms_eq_nil
    rfl
  rw [ones, List.replicate_succ, forms_number rfl _ (apart_cons [] rfl), hfeed]
  simp

theorem read_ones {count : Nat} (h : Reader.maxDigits < count + 1) (limit : Nat) :
  Program.read (limit + 3) (String.ofList (ones (count + 1))) = .error .oversized
  := by
  have hforms := TokenStream.forms_ofSource (String.ofList (ones (count + 1)))
  rw [String.toList_ofList, forms_ones] at hforms
  have hahead := congrArg List.dropLast hforms
  rw [TokenStream.dropLast_forms] at hahead
  obtain ⟨t, ts, hcons, ht, -⟩ := List.map_eq_cons_iff.mp hahead
  have hhead : (TokenStream.ofSource (String.ofList (ones (count + 1)))).head = t := by
    rw [TokenStream.head, hcons, List.headD_cons]
  obtain ⟨hkind, hliteral⟩ := Prod.mk.inj ht
  have hlong : Reader.maxDigits < t.literal.length := by
    rw [hliteral, String.length_ofList, List.length_replicate]
    apply h
  rw [← hhead] at hkind hlong
  exact Program.read_eq_error.mpr ⟨_, Reader.run_program_of_long hkind hlong limit⟩

/-- A number of 4301 digits breaks a session off, and the line after it is not evaluated. -/
theorem interactive_course_number :
  interactive nestingLimit false (fun _ => "") (String.ofList (ones 4301 ++ "1\n".toList))
    = .failing .oversized ⟨prompt, ""⟩
  := by
  have hlines : Blank.lines (ones 4301 ++ "1\n".toList) = [ones 4301, ['1', '\n']] := by
    have hfeed : '\n' ∉ List.replicate 4301 '1' := by
      intro h
      have heq := List.eq_of_mem_replicate h
      revert heq
      decide
    rw [ones, List.append_assoc]
    apply (Blank.lines_append hfeed _).trans
    rfl
  have hexit : Blank.trim (ones 4301) ≠ "exit".toList := by
    intro h
    have hlength := congrArg List.length ((trim_ones 4300).symm.trans h)
    rw [List.length_replicate] at hlength
    cases hlength
  have hblank : Blank.trim (ones 4301) ≠ [] := by
    rw [trim_ones 4300]
    exact nofun
  have hread : Program.read nestingLimit (String.ofList (ones 4301)) = .error .oversized :=
    read_ones (by decide) 997
  obtain ⟨rest, heval⟩ := evaluate_of_unread (s := (start "").supply _) rfl hread
  rw [interactive, String.toList_ofList, hlines, rounds, round_eq hexit hblank, heval]
  rfl

end Command

end ExprScript
