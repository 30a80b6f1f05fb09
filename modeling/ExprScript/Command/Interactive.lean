import ExprScript.Command.Output
import ExprScript.Text.Blank

/-!
# Interactive sessions

An interactive session reads its input line by line, with a prompt in front of each line.
Every line is evaluated in the same session and its results are printed; an error is
reported, and the next line is read.  The session ends with the input, or with a line that
says `exit`.
-/

namespace ExprScript.Command

/-- What is written in front of every line. -/
def prompt : String := ">> "

/-- What becomes of one line. -/
inductive Round where
  /-- The next line is read. -/
  | proceed (session : Session) (output : Output)
  /-- The session ends. -/
  | finished
  /-- The session breaks off with a fault that nothing handles. -/
  | broken (fault : Fault) (output : Output)

/-- Evaluates one line, its line feed included. -/
def round (limit : Nat) (verbose : Bool) (label : ScopeId → String) (s : Session)
    (text : List Char) : Round :=
  let trimmed := Blank.trim text
  if trimmed = "exit".toList then .finished
  else if trimmed = [] then .proceed s Output.empty
  else
    let (result, s) := (s.supply (String.ofList text)).evaluate limit
    let written := logLines verbose label s ++ ⟨s.machine.out, ""⟩
    match result with
    | .error fault =>
      match report? fault with
      | some text => .proceed s.flush (written ++ Output.errorLine text)
      | none => .broken fault written
    | .ok vs =>
      match resultLines limit vs with
      | (lines, none) => .proceed s.flush (written ++ lines)
      | (lines, some fault) => .broken fault (written ++ lines)

/-- Evaluates the lines of the input in turn. -/
def rounds (limit : Nat) (verbose : Bool) (label : ScopeId → String) :
    Session → List (List Char) → Outcome
  | _, [] => .exiting 0 ⟨prompt ++ "\n", ""⟩
  | s, text :: rest =>
    match round limit verbose label s text with
    | .finished => .exiting 0 ⟨prompt, ""⟩
    | .proceed s output => (rounds limit verbose label s rest).after (⟨prompt, ""⟩ ++ output)
    | .broken fault output => .failing fault (⟨prompt, ""⟩ ++ output)

/-- Runs an interactive session on an input. -/
def interactive (limit : Nat) (verbose : Bool) (label : ScopeId → String) (input : String) :
    Outcome :=
  rounds limit verbose label (.start "") (Blank.lines input.toList)

end ExprScript.Command
