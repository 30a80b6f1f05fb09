import ExprScript.Command.Interactive
import ExprScript.Command.Options

/-!
# The command line

A command lists the tokens of a file, prints its canonical text, or runs it; without a file
it starts an interactive session.  It exits with 0 if all went well, with 1 if a file cannot
be read or its program fails, and with 2 if the command line is not understood.
-/

namespace ExprScript.Command

/-- Why a file that exists cannot be read, or a path leads nowhere. -/
inductive Unreadable where
  /-- The path is that of a directory. -/
  | directory
  /-- The path goes on after the name of a file. -/
  | underFile
  /-- The file must not be read. -/
  | denied
  /-- Any other reason, with its number and words. -/
  | other (code : Nat) (text : String)

/-- The number and the words for a reason. -/
def Unreadable.describe : Unreadable → String
  | .directory => "[Errno 21] Is a directory"
  | .underFile => "[Errno 20] Not a directory"
  | .denied => "[Errno 13] Permission denied"
  | .other code text => "[Errno " ++ Decimal.ofNat code ++ "] " ++ text

/-- What there is under the name of a file. -/
inductive FileContent where
  | bytes (content : ByteArray)
  | absent
  | unreadable (reason : Unreadable)

/-- What a command needs to know of its surroundings. -/
structure Host where
  /-- What there is under a file name. -/
  read : String → FileContent
  /-- The text of the standard input. -/
  input : String
  /-- How the log names a scope. -/
  label : ScopeId → String
  /-- The limit on nesting. -/
  limit : Nat

/-- The text that explains the command line. -/
def helpText : String :=
  "\n".intercalate
    ["jerboa [OPTIONS] [FILE]",
      "",
      "Run a Jerboa program. Without FILE, start an interactive session.",
      "",
      "Options:",
      "  --tokens        Print the token stream and exit",
      "  --ast           Print the parsed program in canonical form and exit",
      "  --echo          Print the value of every top-level statement",
      "  -v, --verbose   Enable debug logging on stderr",
      "  --help          Show this help message",
      ""]

/-- The complaint about a command line or a file. -/
def complaint (text : String) : Output := Output.errorLine ("jerboa: " ++ text)

/-- Lists the tokens of a source text. -/
def listTokens (source : String) : Outcome :=
  .exiting 0 ((tokensOf source).foldl (fun o t => o ++ Output.line t.listed) Output.empty)

/-- Prints the canonical text of a program. -/
def showTree (h : Host) (verbose : Bool) (source : String) : Outcome :=
  match Program.read h.limit source with
  | .error (.refused e) => .exiting 1 (Output.errorLine (sourceReport e))
  | .error failure => .failing (.ofRead failure) Output.empty
  | .ok p =>
    let log :=
      if verbose then Output.errorLine ((Event.parsed p.statements.length).text h.label)
      else Output.empty
    match p.render h.limit with
    | .ok text => .exiting 0 (log ++ Output.line text)
    | .error fault => .failing (.ofRender fault) log

/-- Runs a program. -/
def runSource (h : Host) (o : Options) (source : String) : Outcome :=
  let (result, s) := (Session.start source).evaluate h.limit
  let written := logLines o.verbose h.label s ++ ⟨s.machine.out, ""⟩
  match result with
  | .error fault =>
    match report? fault with
    | some text => .exiting 1 (written ++ Output.errorLine text)
    | none => .failing fault written
  | .ok vs =>
    if o.echo then
      match resultLines h.limit vs with
      | (lines, none) => .exiting 0 (written ++ lines)
      | (lines, some fault) => .failing fault (written ++ lines)
    else .exiting 0 written

/-- Does what the options ask for with a source text. -/
def onSource (h : Host) (o : Options) (source : String) : Outcome :=
  if o.tokens then listTokens source
  else if o.tree then showTree h o.verbose source
  else runSource h o source

/-- Does what the options ask for with a file. -/
def onFile (h : Host) (o : Options) : Outcome :=
  match h.read o.file with
  | .absent => .exiting 1 (complaint (o.file ++ ": No such file or directory"))
  | .unreadable reason =>
    .exiting 1 (complaint (o.file ++ ": " ++ reason.describe ++ ": " ++ Quoted.quote o.file))
  | .bytes content =>
    match String.fromUTF8? content with
    | none => .exiting 1 (complaint (o.file ++ ": invalid utf-8"))
    | some source => onSource h o source

/-- Does what the options ask for. -/
def work (h : Host) (o : Options) : Outcome :=
  if o.file ≠ "" then onFile h o
  else if o.tokens ∨ o.tree then .exiting 2 (complaint "missing file argument")
  else interactive h.limit o.verbose h.label h.input

/-- Does what a command line asks for. -/
def perform (h : Host) (args : List String) : Outcome :=
  match Request.ofArgs args with
  | .help => .exiting 0 ⟨helpText, ""⟩
  | .unknownFlag arg => .exiting 2 (complaint ("unknown flag '" ++ arg ++ "'"))
  | .unexpectedArgument arg => .exiting 2 (complaint ("unexpected argument '" ++ arg ++ "'"))
  | .work o => work h o

end ExprScript.Command
