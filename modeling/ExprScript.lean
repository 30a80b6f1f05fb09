import ExprScript.Arith
import ExprScript.Command
import ExprScript.Command.Interactive
import ExprScript.Command.Options
import ExprScript.Command.Output
import ExprScript.Dict
import ExprScript.Eval.Builtin
import ExprScript.Eval.Fault
import ExprScript.Eval.Machine
import ExprScript.Eval.Operator
import ExprScript.Eval.Run
import ExprScript.Limit
import ExprScript.Main
import ExprScript.Pos
import ExprScript.Reader.Basic
import ExprScript.Reader.Error
import ExprScript.Reader.Program
import ExprScript.Scope
import ExprScript.Session
import ExprScript.Text.Blank
import ExprScript.Text.Decimal
import ExprScript.Text.Escape
import ExprScript.Text.Printable
import ExprScript.Text.Quoted
import ExprScript.Token
import ExprScript.Token.Cursor
import ExprScript.Token.Lexeme
import ExprScript.Token.Stream
import ExprScript.Tree
import ExprScript.Tree.Equal
import ExprScript.Tree.Text
import ExprScript.Value
import ExprScript.Value.Equal
import ExprScript.Value.Text
import ExprScript.Verdict
import ExprScript.Proofs.Arith
import ExprScript.Proofs.Reader.Run
import ExprScript.Proofs.Grammar
import ExprScript.Proofs.Grammar.Power
import ExprScript.Proofs.Grammar.Sound
import ExprScript.Proofs.Grammar.Complete
import ExprScript.Proofs.Reader.Limit
import ExprScript.Proofs.Grammar.Form
import ExprScript.Proofs.Grammar.Program
import ExprScript.Proofs.Grammar.Text
import ExprScript.Proofs.RoundTrip
import ExprScript.Proofs.Eval.Enter
import ExprScript.Proofs.Eval.Reach
import ExprScript.Proofs.Eval.Meets
import ExprScript.Proofs.Value.Every
import ExprScript.Proofs.Eval.Law
import ExprScript.Proofs.Eval.Along
import ExprScript.Proofs.Eval.Plain
import ExprScript.Proofs.Eval.Direct
import ExprScript.Proofs.Eval.Simulation
import ExprScript.Proofs.Reader.Advance
import ExprScript.Proofs.Reader.Routine
import ExprScript.Proofs.Session.Step
import ExprScript.Proofs.Session.Direct
import ExprScript.Proofs.Grammar.Branch
import ExprScript.Proofs.Eval.Frame
import ExprScript.Proofs.Session.Frame
import ExprScript.Proofs.Session.Depth
import ExprScript.Proofs.Tree.Shown
import ExprScript.Proofs.Idempotent
import ExprScript.Proofs.Tree.Clean
import ExprScript.Proofs.Eval.Safe
import ExprScript.Proofs.Eval.Checked
import ExprScript.Proofs.Eval.NoLapse
import ExprScript.Proofs.Session.Safe
import ExprScript.Proofs.Token.Split
import ExprScript.Proofs.Reader.Recast
import ExprScript.Proofs.Reader.Match
import ExprScript.Proofs.Grammar.Last
import ExprScript.Proofs.Reader.Joined
import ExprScript.Proofs.Value.Recast
import ExprScript.Proofs.Eval.Recast
import ExprScript.Proofs.Session.Joined
import ExprScript.Proofs.Session.Layout
import ExprScript.Proofs.Eval.Range
import ExprScript.Proofs.Session.Range
import ExprScript.Proofs.Command.Interactive
import ExprScript.Proofs.Value.Alike
import ExprScript.Proofs.Eval.Compare
import ExprScript.Proofs.Eval.Grouping
import ExprScript.Proofs.Session.Grouping
import ExprScript.Proofs.Token.Longest
import ExprScript.Proofs.Token.Partition
import ExprScript.Proofs.Token.Literal
import ExprScript.Proofs.Reader.Prefix
import ExprScript.Proofs.Eval.Caller
import ExprScript.Proofs.Eval.Fails
import ExprScript.Proofs.Session.Return
import ExprScript.Proofs.Reader.Terminates
import ExprScript.Proofs.Reader.Window
import ExprScript.Proofs.Reader.Segment
import ExprScript.Proofs.Eval.Exact
import ExprScript.Proofs.Eval.Division
import ExprScript.Proofs.Token.Written
import ExprScript.Proofs.Grammar.Canonical
import ExprScript.Proofs.Value.Data
import ExprScript.Proofs.Reader.Broken
import ExprScript.Proofs.Session.ReadBack
import ExprScript.Proofs.Scope.History
import ExprScript.Proofs.Session.Scopes
import ExprScript.Proofs.Eval.Congruence
import ExprScript.Proofs.Eval.Limit
import ExprScript.Proofs.Session.Limit
import ExprScript.Proofs.Value.Related
import ExprScript.Proofs.Value.Equality
import ExprScript.Proofs.Command.Modes
