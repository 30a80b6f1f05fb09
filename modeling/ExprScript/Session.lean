import ExprScript.Eval.Run
import ExprScript.Reader.Program

/-!
# Sessions

A session holds a source text that is still to be evaluated, as far as it has been read, and
the state that earlier source texts have left.  Evaluating reads all of the pending text and
then runs its statements one by one; supplying another text replaces the pending one and keeps
every binding.  A failure, of either kind, leaves a session that can go on.
-/

namespace ExprScript

/-- A session. -/
structure Session where
  pending : TokenStream
  machine : Machine

namespace Session

/-- A new session with a pending source text. -/
def start (source : String) : Session := ⟨.ofSource source, .start⟩

/-- Replaces the pending source text. -/
def supply (s : Session) (source : String) : Session := { s with pending := .ofSource source }

/-- Runs the statements of a program. -/
def run (limit : Nat) (s : Session) (p : Program) : Except Fault (List Value) × Session :=
  match (Eval.statements limit p.statements).run s.machine with
  | .ok vs m => (.ok vs, { s with machine := m })
  | .error e m => (.error e, { s with machine := m })

/-- Adds an event to the log. -/
def record (s : Session) (event : Event) : Session :=
  { s with machine := { s.machine with log := s.machine.log.push event } }

/-- Reads and runs the pending source text; the result has a value for every statement. -/
def evaluate (limit : Nat) (s : Session) : Except Fault (List Value) × Session :=
  match (Reader.program limit).run s.pending with
  | .error e rest => (.error (.ofRead e), { s with pending := rest })
  | .ok p rest => run limit (record { s with pending := rest } (.parsed p.statements.length)) p

/-- Forgets what was printed and logged. -/
def flush (s : Session) : Session :=
  { s with machine := { s.machine with out := "", log := #[] } }

/-- The bindings of the root scope, sorted by name. -/
def bindings (s : Session) : Dict Value := Dict.sorted (s.machine.heap.bindings Machine.root)

/-- Whether the current scope is the root scope. -/
def atRoot (s : Session) : Bool := s.machine.cursor = Machine.root

end Session

end ExprScript
