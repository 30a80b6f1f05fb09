import ExprScript.Reader.Basic
import ExprScript.Token.Cursor
import ExprScript.Tree

/-!
# Reading programs

Statements are read by recursive descent, and expressions by the binding power of the
operators: an operator takes the expression on its left as an operand if it binds at least
as tightly as its surroundings ask for.  Nested statements and expressions are read within a
limit, which every nested reader lowers by one; lists, blocks and chains of operators may be
of any length.
-/

namespace ExprScript

/-- How a token goes on with the expression in front of it. -/
inductive Link where
  /-- An opening parenthesis starts the arguments of a call. -/
  | call
  /-- An opening bracket starts an index. -/
  | index
  /-- An operator between two operands, with its binding powers to the left and right. -/
  | binary (op : BinaryOp) (left right : Nat)
deriving DecidableEq

/-- The binding power of a link to the expression in front of it. -/
def Link.power : Link → Nat
  | .call | .index => 12
  | .binary _ left _ => left

namespace Kind

/-- How a token of a kind goes on with an expression, if it does. -/
def link? : Kind → Option Link
  | .or => some (.binary .or 1 2)
  | .and => some (.binary .and 3 4)
  | .eq => some (.binary .eq 5 6)
  | .ne => some (.binary .ne 5 6)
  | .lt => some (.binary .lt 7 8)
  | .gt => some (.binary .gt 7 8)
  | .le => some (.binary .le 7 8)
  | .ge => some (.binary .ge 7 8)
  | .plus => some (.binary .add 9 10)
  | .minus => some (.binary .sub 9 10)
  | .star => some (.binary .mul 10 11)
  | .slash => some (.binary .div 10 11)
  | .percent => some (.binary .rem 10 11)
  | .lparen => some .call
  | .lbracket => some .index
  | _ => none

/-- The operator that a token of a kind puts in front of its operand. -/
def unary? : Kind → Option UnaryOp
  | .bang => some .not
  | .minus => some .neg
  | _ => none

/-- Whether a token of a kind cannot start an operand: it closes something, or it is an
operator that stands between two operands only. -/
def barsOperand : Kind → Bool
  | .rparen | .rbracket | .rbrace | .semicolon | .comma | .eof => true
  | .or | .and | .eq | .ne | .lt | .gt | .le | .ge | .plus | .star | .slash | .percent => true
  | _ => false

end Kind

namespace Reader

/-- The binding power of an operator in front of its operand. -/
def unaryPower : Nat := 13

/-- The largest number that can be written. -/
def maxInt : Nat := 2147483647

/-- The number of digits beyond which a number is not read at all. -/
def maxDigits : Nat := 4300

/-- The value of a number token. -/
def number (t : Token) : Reader Int :=
  if maxDigits < t.literal.length then throw .oversized
  else if maxInt < Decimal.value t.literal then refuse (.range t.literal (some t.pos))
  else return (Decimal.value t.literal : Int)

/-- Refuses the next token if it cannot start an operand. -/
def operandAhead : Reader Unit := do
  let t ← next
  if t.kind.barsOperand then refuse (.operand t) else return ()

/-- Reads a parameter name. -/
def parameter : Reader String := do
  return (← require .ident).literal

/-- Reads an entry of a map, given the entries in front of it and a reader of expressions. -/
def entry (expr : Nat → Reader Expr) (seen : List (String × Expr)) :
    Reader (String × Expr) := do
  let t ← next
  if t.kind = .string then
    let _ ← take
    if seen.any fun p => p.1 = t.literal then
      refuse (.malformed (.duplicateKey t.literal) (some t.pos))
    else
      let _ ← require .colon
      let value ← expr 0
      return (t.literal, value)
  else malformed .mapKey

/-- Reads what follows an expression along a link, given a reader of expressions. -/
def extend (expr : Nat → Reader Expr) (left : Expr) : Link → Reader Expr
  | .index => do
    let _ ← take
    let position ← expr 0
    let _ ← require .rbracket
    return .index left.pos left position
  | .call => do
    let _ ← take
    let arguments ← list .rparen fun _ => expr 0
    return .call left.pos left arguments
  | .binary op _ power => do
    let _ ← take
    operandAhead
    let right ← expr power
    return .binary left.pos left op right

/-- Goes on with an expression as long as the links bind at least with a given power, at most
as often as the bound allows. -/
def linksIn (expr : Nat → Reader Expr) (power : Nat) : List Token → Expr → Reader Expr
  | [], _ => exhausted
  | _ :: bound, left => do
    match (← next).kind.link? with
    | none => return left
    | some link =>
      if link.power < power then return left
      else
        let wider ← extend expr left link
        linksIn expr power bound wider

/-- Goes on with an expression as long as the links bind at least with a given power. -/
def links (expr : Nat → Reader Expr) (power : Nat) (left : Expr) : Reader Expr := do
  linksIn expr power (← get).bound left

mutual

/-- Reads a statement. -/
def statement : Nat → Reader Stmt
  | 0 => exhausted
  | limit + 1 => do
    let t ← next
    match t.kind with
    | .letWord =>
      let _ ← take
      let name ← require .ident
      let _ ← require .assign
      let value ← expression limit 0
      let _ ← require .semicolon
      return .bind (some t.pos) name.literal value
    | .returnWord =>
      let _ ← take
      let value ← expression limit 0
      let _ ← require .semicolon
      return .ret (some t.pos) value
    | .lbrace =>
      let body ← block limit
      skip .semicolon
      return body
    | _ =>
      let value ← expression limit 0
      skip .semicolon
      return .expr (some t.pos) value

/-- Reads a block. -/
def block : Nat → Reader Stmt
  | 0 => exhausted
  | limit + 1 => do
    let t ← require .lbrace
    let body ← upTo .rbrace (statement limit)
    let _ ← require .rbrace
    return .block (some t.pos) body

/-- Reads an expression whose links bind at least with a given power. -/
def expression : Nat → Nat → Reader Expr
  | 0, _ => exhausted
  | limit + 1, power => do
    let left ← operand limit
    links (expression limit) power left

/-- Reads an expression up to its first link. -/
def operand : Nat → Reader Expr
  | 0 => exhausted
  | limit + 1 => do
    let t ← next
    match t.kind with
    | .int =>
      let _ ← take
      let n ← number t
      return .int (some t.pos) n
    | .trueWord =>
      let _ ← take
      return .bool (some t.pos) true
    | .falseWord =>
      let _ ← take
      return .bool (some t.pos) false
    | .string =>
      let _ ← take
      return .str (some t.pos) t.literal
    | .ident =>
      let _ ← take
      return .ident (some t.pos) t.literal
    | .lparen =>
      if (← afterNext).kind = .rparen then malformed fun _ => .emptyGroup
      else
        let _ ← take
        let inner ← expression limit 0
        let _ ← require .rparen
        return .group (some t.pos) inner
    | .ifWord => conditional limit
    | .fnWord =>
      let _ ← take
      let _ ← require .lparen
      let parameters ← list .rparen fun _ => parameter
      let body ← block limit
      return .fn (some t.pos) parameters body
    | .lbracket =>
      let _ ← take
      let elements ← list .rbracket fun _ => expression limit 0
      return .array (some t.pos) elements
    | .lbrace =>
      let _ ← take
      let entries ← list .rbrace (entry (expression limit))
      return .map (some t.pos) entries
    | kind =>
      match kind.unary? with
      | some op =>
        let _ ← take
        operandAhead
        let e ← expression limit unaryPower
        return .unary (some t.pos) op e
      | none => unexpected

/-- Reads a conditional, with the branches after it. -/
def conditional : Nat → Reader Expr
  | 0 => exhausted
  | limit + 1 => do
    let t ← require .ifWord
    let condition ← expression limit 0
    let consequence ← block limit
    if ← nextIs .elseWord then
      let _ ← take
      let e ← next
      if e.kind = .ifWord then
        let nested ← conditional limit
        return .cond (some t.pos) condition consequence (some (.expr (some e.pos) nested))
      else
        let alternative ← block limit
        return .cond (some t.pos) condition consequence (some alternative)
    else return .cond (some t.pos) condition consequence none

end

/-- Reads statements up to the end of input. -/
def program (limit : Nat) : Reader Program := do
  return ⟨← upTo .eof (statement limit)⟩

end Reader

/-- Reads a source text as a program. -/
def Program.read (limit : Nat) (source : String) : Except ReadFailure Program :=
  match (Reader.program limit).run (TokenStream.ofSource source) with
  | .ok p _ => .ok p
  | .error e _ => .error e

end ExprScript
