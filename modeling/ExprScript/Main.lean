import ExprScript.Command
import ExprScript.Limit

/-!
# The program

The program reads what a command needs, performs the command, and writes its output.  An
interactive session is performed line by line, as the lines come in.
-/

namespace ExprScript.Command

/-- How the log names a scope. -/
def scopeLabel (scope : ScopeId) : String := "0x" ++ String.ofList (Nat.toDigits 16 scope)

/-- Reads what there is under the name of a file. -/
def readContent (file : String) : IO FileContent := do
  try
    return .bytes (← IO.FS.readBinFile file)
  catch e =>
    match e with
    | .noFileOrDirectory _ _ _ => return .absent
    | .inappropriateType _ code _ =>
      return .unreadable (if code = 21 then .directory else .underFile)
    | .permissionDenied _ _ _ => return .unreadable .denied
    | .otherError code text => return .unreadable (.other code.toNat text)
    | e => return .unreadable (.other 5 (toString e))

/-- Writes the output of a command. -/
def write (o : Output) : IO Unit := do
  let out ← IO.getStdout
  let err ← IO.getStderr
  out.putStr o.out
  out.flush
  err.putStr o.err
  err.flush

/-- Reports a fault that nothing handles, and gives the exit code for it. -/
def abandon (f : Fault) : IO UInt32 := do
  match f with
  | .oversized => write (complaint "number too long")
  | .exhausted => write (complaint "maximum recursion depth exceeded")
  | .unsupported sort => write (complaint sort.unsupported)
  | .unhandled sort => write (complaint sort.unhandled)
  | .unknownBuiltin name => write (complaint ("unknown builtin '" ++ name ++ "'"))
  | .error e => write (complaint e.report)
  return 1

/-- Goes on with an interactive session, line by line. -/
partial def converse (verbose : Bool) (s : Session) : IO UInt32 := do
  write ⟨prompt, ""⟩
  let text ← (← IO.getStdin).getLine
  if text = "" then
    write ⟨"\n", ""⟩
    return 0
  else
    match round nestingLimit verbose scopeLabel s text.toList with
    | .finished => return 0
    | .proceed s output =>
      write output
      converse verbose s
    | .broken f output =>
      write output
      abandon f

/-- Performs a command that is no interactive session. -/
def once (content : FileContent) (args : List String) : IO UInt32 := do
  let host : Host := ⟨fun _ => content, "", scopeLabel, nestingLimit⟩
  let outcome := perform host args
  write outcome.output
  match outcome.exit with
  | .ok code => return code.toUInt32
  | .error f => abandon f

end ExprScript.Command

open ExprScript.Command in
/-- Performs what the command line asks for. -/
def main (args : List String) : IO UInt32 := do
  match Request.ofArgs args with
  | .work o =>
    if o.file ≠ "" then once (← readContent o.file) args
    else if o.tokens ∨ o.tree then once .absent args
    else converse o.verbose (.start "")
  | _ => once .absent args
