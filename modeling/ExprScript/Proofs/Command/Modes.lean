import ExprScript.Command
import ExprScript.Proofs.Command.Interactive

/-!
# Commands that read the program in a file

A file can be run, run with its results printed, or shown in canonical form.  Each of these
commands reads the text of the file as a program, in one way or another, and if the text is
refused all of them report it in the same words, write nothing else, run nothing, and exit with 1.
A text that is read is never reported as refused, whatever becomes of its program: the commands
that run it exit with 1 if the program fails, and only then.

This holds of files whose names are taken for such.  An argument that starts with a hyphen is an
option, and what is in a file of that name makes no difference to any command.
-/

namespace ExprScript

namespace Command

open Session Stateful

/-! ### The names of files -/

/-- The command line takes an argument for the name of a file. -/
def Names (arg : String) : Prop := arg ≠ "" ∧ arg.toList.head? ≠ some '-'

instance (arg : String) : Decidable (Names arg) := inferInstanceAs (Decidable (_ ∧ _))

theorem take_file {o : Options} {f : String} (ho : o.file = "") (hf : Names f) :
  o.take [f] = .work { o with file := f }
  := by
  have hflag : ∀ flag : String, flag.toList.head? = some '-' → f ≠ flag := by
    rintro flag hflag rfl
    exact hf.2 hflag
  rw [Options.take]
  simp only [hflag "--help" rfl, hflag "-h" rfl, hflag "--tokens" rfl, hflag "--ast" rfl,
    hflag "--echo" rfl, hflag "--verbose" rfl, hflag "-v" rfl, hf.2, ho, or_self, if_false,
    if_true]
  rw [Options.take]

/-- A file that is asked for has no name that starts with a hyphen. -/
theorem head?_file_of_take {o o' : Options} {args : List String}
    (ho : o.file.toList.head? ≠ some '-') (h : o.take args = .work o') :
  o'.file.toList.head? ≠ some '-'
  := by
  fun_induction Options.take o args
  case case1 => cases h; exact ho
  case case2 | case7 | case9 => cases h
  case case3 ih | case4 ih | case5 ih | case6 ih => exact ih ho h
  case case8 hdash _ ih => exact ih hdash h

/-- What is in the files whose names start with a hyphen makes no difference to a command. -/
theorem perform_congr {h : Host} {read : String → FileContent}
    (hread : ∀ f : String, f.toList.head? ≠ some '-' → read f = h.read f) (args : List String) :
  perform { h with read := read } args = perform h args
  := by
  rw [perform, perform]
  cases hargs : Request.ofArgs args with
  | work o =>
      have hfile : o.file.toList.head? ≠ some '-' := by
        apply head?_file_of_take _ hargs
        decide
      dsimp only
      rw [work, work, onFile, onFile]
      dsimp only
      rw [hread o.file hfile]
      rfl
  | _ => rfl

/-! ### Reports -/

section

variable {h : Host} {o : Options} {source : String}

theorem onFile_eq {content : ByteArray} (hcontent : h.read o.file = .bytes content)
    (hsource : String.fromUTF8? content = some source) :
  onFile h o = onSource h o source
  := by
  rw [onFile, hcontent]
  dsimp only
  rw [hsource]

/-- A source text that is refused is not run. -/
theorem machine_of_refused {limit : Nat} {e : SourceError}
    (he : Program.read limit source = .error (.refused e)) :
  ((Session.start source).evaluate limit).2.machine = Machine.start
  := by
  obtain ⟨rest, heval⟩ := evaluate_of_unread (s := .start source) rfl he
  rw [heval]
  rfl

/-- A source text that is refused is reported by every command that reads it as a program. -/
theorem onSource_refused {e : SourceError} (ho : o.tokens = false)
    (he : Program.read h.limit source = .error (.refused e)) :
  onSource h o source = .exiting 1 (Output.errorLine (sourceReport e))
  := by
  rw [onSource, if_neg (by simp [ho])]
  by_cases htree : o.tree = true
  · rw [if_pos htree, showTree, he]
  · obtain ⟨rest, heval⟩ := evaluate_of_unread (s := .start source) rfl he
    rw [if_neg htree, runSource, heval]
    dsimp only [Fault.ofRead]
    -- The error of evaluation has the words of the refusal.
    rw [report?_error]
    -- A session that has just begun has nothing to write before the report.
    have hwritten := trace_append o.verbose h.label ready_start
      (Output.errorLine (sourceReport e))
    apply congrArg (Outcome.exiting 1) hwritten

/-- How a command that runs a program ends, by what the program comes to. -/
inductive Ended (r : Except Fault (List Value)) : Outcome → Prop
  | failed {f reason output} : r = .error f → Reported f reason →
      output.err = "jerboa: runtime error: " ++ reason ++ "\n" → Ended r (.exiting 1 output)
  | done {vs output} : r = .ok vs → output.err = "" → Ended r (.exiting 0 output)
  /-- A result is nested too deeply to be printed. -/
  | unshown {vs f output} : r = .ok vs → output.err = "" → Ended r (.failing f output)

theorem err_append (a b : Output) :
  (a ++ b).err = a.err ++ b.err
  := rfl

theorem err_resultLines (limit : Nat) (vs : List Value) :
  (resultLines limit vs).1.err = ""
  := by
  fun_induction resultLines limit vs
  case case1 | case4 => rfl
  case case2 ih => exact ih
  case case3 hrest ih =>
    rw [hrest] at ih
    rw [err_append, ih]
    rfl

/-- A command ends a program that is read as the program ends, and reports no refusal. -/
theorem ended_runSource {p : Program} (hverbose : o.verbose = false)
    (hp : Program.read h.limit source = .ok p) :
  Ended ((Session.start source).evaluate h.limit).1 (runSource h o source)
  := by
  obtain ⟨rest, hread⟩ := Program.read_eq_ok.mp hp
  have hfailed : ∀ f s, (Session.start source).evaluate h.limit = (.error f, s) →
      ∃ reason, Reported f reason := by
    intro f s heval
    apply exists_reported _ heval hread
    apply Eval.rests_start trivial
  rw [runSource, hverbose]
  generalize (Session.start source).evaluate h.limit = r at hfailed ⊢
  obtain ⟨result, s⟩ := r
  dsimp only
  have hwritten : (logLines false h.label s ++ ⟨s.machine.out, ""⟩).err = "" := rfl
  generalize logLines false h.label s ++ ⟨s.machine.out, ""⟩ = written at hwritten ⊢
  cases result with
  | error f =>
      obtain ⟨reason, hreported⟩ := hfailed f s rfl
      dsimp only
      rw [report?_eq hreported]
      refine .failed rfl hreported ?_
      rw [err_append, hwritten, String.empty_append]
      rfl
  | ok vs =>
      dsimp only
      cases o.echo with
      | false => exact .done rfl hwritten
      | true =>
          have hlines : (written ++ (resultLines h.limit vs).1).err = "" := by
            rw [err_append, hwritten, err_resultLines, String.empty_append]
          rw [if_pos rfl]
          generalize resultLines h.limit vs = lines at hlines ⊢
          obtain ⟨lines, fault⟩ := lines
          cases fault with
          | none => exact .done rfl hlines
          | some fault => exact .unshown rfl hlines

/-- What is reported of a program that was read does not say that it was refused. -/
theorem Ended.err {r : Except Fault (List Value)} {o : Outcome} (h : Ended r o) :
  ¬ "jerboa: parse error: ".toList <+: o.output.err.toList
  := by
  cases h with
  | failed _ _ herr =>
      dsimp only [Outcome.exiting]
      rw [herr, String.toList_append, String.toList_append, List.append_assoc]
      intro hrefusal
      -- Neither of the two announcements begins with the other.
      rcases List.prefix_or_prefix_of_prefix hrefusal (List.prefix_append _ _) with h | h
      · revert h
        decide
      · revert h
        decide
  | done _ herr | unshown _ herr =>
      dsimp only [Outcome.exiting, Outcome.failing]
      rw [herr]
      decide

theorem Ended.exit_iff {r : Except Fault (List Value)} {o : Outcome} (h : Ended r o) :
  o.exit = .ok 1 ↔ r = .error .exhausted ∨ ∃ e, r = .error (.error e)
  := by
  cases h with
  | failed hr hreported _ =>
      refine iff_of_true rfl ?_
      subst hr
      cases hreported with
      | exhausted => exact .inl rfl
      | error => exact .inr ⟨_, rfl⟩
  | done hr _ | unshown hr _ =>
      subst hr
      simp [Outcome.exiting, Outcome.failing]

end

/-! ### Files -/

/-- What the commands that read a source text from a file make of it. -/
structure Discerns (h : Host) (f source : String) : Prop where
  /-- A refusal is reported in the same words, nothing else is written, and nothing is run. -/
  refused : ∀ e, Program.read h.limit source = .error (.refused e) →
    (∀ args ∈ [[f], ["--echo", f], ["--ast", f]],
      perform h args = .exiting 1 ⟨"", "jerboa: parse error: " ++ e.report ++ "\n"⟩)
    ∧ ((Session.start source).evaluate h.limit).2.machine = Machine.start
  /-- A program that is read is not reported as refused, and its command exits with 1 if it fails
  and only then. -/
  read : ∀ p, Program.read h.limit source = .ok p → ∀ args ∈ [[f], ["--echo", f]],
    ¬ "jerboa: parse error: ".toList <+: (perform h args).output.err.toList
    ∧ ((perform h args).exit = .ok 1
      ↔ ((Session.start source).evaluate h.limit).1 = .error .exhausted
        ∨ ∃ e, ((Session.start source).evaluate h.limit).1 = .error (.error e))

section

variable {h : Host} {f source : String} {content : ByteArray} (hf : Names f)
  (hcontent : h.read f = .bytes content) (hsource : String.fromUTF8? content = some source)
include hf hcontent hsource

/-- Options before the name of a file say what is done with the source text in it. -/
theorem perform_file {args : List String} (o : Options) (ho : o.file = "")
    (hargs : Request.ofArgs args = o.take [f]) :
  perform h args = onSource h { o with file := f } source
  := by
  rw [perform, hargs, take_file ho hf]
  dsimp only
  rw [work, if_pos hf.1, onFile_eq hcontent hsource]

/-- A file with a name that is taken for one is run and shown alike if its source text is refused,
and is not reported as refused if it is read. -/
theorem refusals_told_apart :
  Discerns h f source
  := by
  have hrun : perform h [f] = onSource h { Options.default with file := f } source :=
    perform_file hf hcontent hsource .default rfl rfl
  have hecho : perform h ["--echo", f]
      = onSource h { Options.default with echo := true, file := f } source :=
    perform_file hf hcontent hsource { Options.default with echo := true } rfl rfl
  have hshow : perform h ["--ast", f]
      = onSource h { Options.default with tree := true, file := f } source :=
    perform_file hf hcontent hsource { Options.default with tree := true } rfl rfl
  constructor
  · intro e he
    refine ⟨?_, machine_of_refused he⟩
    simp only [List.forall_mem_cons]
    refine ⟨?_, ?_, ?_, List.forall_mem_nil _⟩
    · rw [hrun]
      apply onSource_refused rfl he
    · rw [hecho]
      apply onSource_refused rfl he
    · rw [hshow]
      apply onSource_refused rfl he
  · intro p hp
    simp only [List.forall_mem_cons]
    refine ⟨?_, ?_, List.forall_mem_nil _⟩
    · have hended := ended_runSource (o := { Options.default with file := f }) rfl hp
      rw [hrun]
      exact ⟨hended.err, hended.exit_iff⟩
    · have hended := ended_runSource
        (o := { Options.default with echo := true, file := f }) rfl hp
      rw [hecho]
      exact ⟨hended.err, hended.exit_iff⟩

end

/-- Surroundings with one file. -/
def Host.holding (f source : String) (limit : Nat) : Host :=
  ⟨fun file => if file = f then .bytes source.toUTF8 else .absent, "", fun _ => "", limit⟩

/-- A text that is refused after it has called for output, and one that is read and fails after it
has printed. -/
theorem refusals_told_apart_printing :
  (Names "a.jb" ∧ Names "b.jb")
    ∧ perform (.holding "a.jb" "print(1); )" 20) ["--ast", "a.jb"]
      = .exiting 1 ⟨"", "jerboa: parse error: unexpected token ')' at line 1 col 11\n"⟩
    ∧ (perform (.holding "b.jb" "print(1); 1 / 0" 20) ["--echo", "b.jb"]).exit = .ok 1
  := by
  have hnames : Names "a.jb" ∧ Names "b.jb" := by decide
  have ha : Discerns (.holding "a.jb" "print(1); )" 20) "a.jb" "print(1); )" :=
    refusals_told_apart hnames.1 rfl rfl
  have hb : Discerns (.holding "b.jb" "print(1); 1 / 0" 20) "b.jb" "print(1); 1 / 0" :=
    refusals_told_apart hnames.2 rfl rfl
  refine ⟨hnames, ?_, ?_⟩
  · have hread : Program.read 20 "print(1); )"
        = .error (.refused (.unexpected ⟨.rparen, ")", ⟨1, 11⟩⟩)) := by
      with_unfolding_all rfl
    apply (ha.refused _ hread).1
    decide
  · have hread : ∃ p, Program.read 20 "print(1); 1 / 0" = .ok p := ⟨_, by with_unfolding_all rfl⟩
    obtain ⟨p, hp⟩ := hread
    apply ((hb.read p hp _ (by decide)).2).mpr
    exact .inr ⟨_, by with_unfolding_all rfl⟩

/-- A file whose name is not taken for one is not read: its name is an unknown option. -/
theorem refusals_told_apart_option :
  perform (.holding "-x.jb" ")" 20) ["-x.jb"]
      = .exiting 2 ⟨"", "jerboa: unknown flag '-x.jb'\n"⟩
    ∧ ¬ ∀ (h : Host) (f source : String) (content : ByteArray),
      h.read f = .bytes content → String.fromUTF8? content = some source → Discerns h f source
  := by
  have hperform : perform (.holding "-x.jb" ")" 20) ["-x.jb"]
      = .exiting 2 ⟨"", "jerboa: unknown flag '-x.jb'\n"⟩ := by with_unfolding_all rfl
  refine ⟨hperform, fun hall => ?_⟩
  have hread : Program.read 20 ")"
      = .error (.refused (.unexpected ⟨.rparen, ")", ⟨1, 1⟩⟩)) := by with_unfolding_all rfl
  have hdiscerns : Discerns (.holding "-x.jb" ")" 20) "-x.jb" ")" := hall _ _ _ _ rfl rfl
  have hrefused := (hdiscerns.refused _ hread).1 ["-x.jb"] List.mem_cons_self
  have hexit := congrArg Outcome.exit (hperform.symm.trans hrefused)
  simp [Outcome.exiting] at hexit

end Command

end ExprScript
