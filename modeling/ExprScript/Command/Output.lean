import ExprScript.Session

/-!
# Output of the command line

A command writes to two channels and ends with an exit code, or with a fault that nothing
handles.  Results are printed one to a line, units left out; errors are reported as one line
each.
-/

namespace ExprScript.Command

/-- What a command writes. -/
structure Output where
  out : String
  err : String
deriving DecidableEq

namespace Output

/-- No output. -/
def empty : Output := ⟨"", ""⟩

/-- One output after another. -/
def append (a b : Output) : Output := ⟨a.out ++ b.out, a.err ++ b.err⟩

instance : Append Output := ⟨append⟩

/-- A line of the first channel. -/
def line (text : String) : Output := ⟨text ++ "\n", ""⟩

/-- A line of the second channel. -/
def errorLine (text : String) : Output := ⟨"", text ++ "\n"⟩

end Output

/-- What a command does: what it writes, and how it ends. -/
structure Outcome where
  output : Output
  exit : Except Fault Nat

/-- A command that writes and ends with an exit code. -/
def Outcome.exiting (code : Nat) (output : Output) : Outcome := ⟨output, .ok code⟩

/-- A command that fails after it has written something. -/
def Outcome.failing (fault : Fault) (output : Output) : Outcome := ⟨output, .error fault⟩

/-- The same command, with other output in front. -/
def Outcome.after (o : Outcome) (output : Output) : Outcome :=
  { o with output := output ++ o.output }

/-- The report of a refused source text. -/
def sourceReport (e : SourceError) : String := "jerboa: parse error: " ++ e.report

/-- The report of a fault that a command can go on after, if it is one. -/
def report? : Fault → Option String
  | .error e =>
    match e.cause with
    | .source s => some (sourceReport s)
    | _ => some ("jerboa: runtime error: " ++ e.report)
  | .exhausted => some "jerboa: runtime error: maximum recursion depth exceeded"
  | _ => none

/-- The lines for the results of a program, units left out, up to one that cannot be shown. -/
def resultLines (limit : Nat) : List Value → Output × Option Fault
  | [] => (Output.empty, none)
  | .unit :: vs => resultLines limit vs
  | v :: vs =>
    match v.render limit with
    | .ok text =>
      let (rest, fault) := resultLines limit vs
      (Output.line text ++ rest, fault)
    | .error fault => (Output.empty, some (.ofRender fault))

/-- The log of a session, if it is asked for. -/
def logLines (verbose : Bool) (label : ScopeId → String) (s : Session) : Output :=
  if verbose then
    s.machine.log.foldl (fun o event => o ++ Output.errorLine (event.text label)) Output.empty
  else Output.empty

end ExprScript.Command
