import ExprScript.Pos
import ExprScript.Text.Quoted

/-!
# Tokens

A token is a piece of source text with its kind, its literal and the position of its first
character.  Two tokens are the same token when kind and literal agree, wherever they stand.
-/

namespace ExprScript

/-- The kinds of tokens. -/
inductive Kind where
  | eof | illegal | ident | int | string
  | assign | plus | minus | star | slash | percent | bang
  | eq | ne | lt | gt | le | ge | and | or
  | comma | semicolon | colon
  | lparen | rparen | lbrace | rbrace | lbracket | rbracket
  | fnWord | letWord | trueWord | falseWord | ifWord | elseWord | returnWord
deriving DecidableEq

namespace Kind

/-- The name of a kind: its own text for operators and punctuation, a word in capitals for
all others. -/
def name : Kind → String
  | .eof => "EOF"
  | .illegal => "ILLEGAL"
  | .ident => "IDENT"
  | .int => "INT"
  | .string => "STRING"
  | .assign => "="
  | .plus => "+"
  | .minus => "-"
  | .star => "*"
  | .slash => "/"
  | .percent => "%"
  | .bang => "!"
  | .eq => "=="
  | .ne => "!="
  | .lt => "<"
  | .gt => ">"
  | .le => "<="
  | .ge => ">="
  | .and => "&&"
  | .or => "||"
  | .comma => ","
  | .semicolon => ";"
  | .colon => ":"
  | .lparen => "("
  | .rparen => ")"
  | .lbrace => "\x7b"
  | .rbrace => "\x7d"
  | .lbracket => "["
  | .rbracket => "]"
  | .fnWord => "FN"
  | .letWord => "LET"
  | .trueWord => "TRUE"
  | .falseWord => "FALSE"
  | .ifWord => "IF"
  | .elseWord => "ELSE"
  | .returnWord => "RETURN"

/-- All kinds. -/
def all : List Kind :=
  [.eof, .illegal, .ident, .int, .string, .assign, .plus, .minus, .star, .slash, .percent,
    .bang, .eq, .ne, .lt, .gt, .le, .ge, .and, .or, .comma, .semicolon, .colon, .lparen,
    .rparen, .lbrace, .rbrace, .lbracket, .rbracket, .fnWord, .letWord, .trueWord,
    .falseWord, .ifWord, .elseWord, .returnWord]

/-- The kind of a given name. -/
def ofName? (s : String) : Option Kind := all.find? fun k => k.name = s

/-- The kind of a word: a keyword, or else an identifier. -/
def ofWord : String → Kind
  | "fn" => .fnWord
  | "let" => .letWord
  | "true" => .trueWord
  | "false" => .falseWord
  | "if" => .ifWord
  | "else" => .elseWord
  | "return" => .returnWord
  | _ => .ident

/-- The kind of an operator of two characters. -/
def ofPair? : Char → Char → Option Kind
  | '=', '=' => some .eq
  | '!', '=' => some .ne
  | '<', '=' => some .le
  | '>', '=' => some .ge
  | '&', '&' => some .and
  | '|', '|' => some .or
  | _, _ => none

/-- The kind of an operator or punctuation mark of one character. -/
def ofMark? : Char → Option Kind
  | '=' => some .assign
  | '+' => some .plus
  | '-' => some .minus
  | '*' => some .star
  | '/' => some .slash
  | '%' => some .percent
  | '!' => some .bang
  | '<' => some .lt
  | '>' => some .gt
  | ',' => some .comma
  | ';' => some .semicolon
  | ':' => some .colon
  | '(' => some .lparen
  | ')' => some .rparen
  | '\x7b' => some .lbrace
  | '\x7d' => some .rbrace
  | '[' => some .lbracket
  | ']' => some .rbracket
  | _ => none

/-- Every kind is in the list of all kinds. -/
theorem mem_all (k : Kind) :
  k ∈ all
  := by
  cases k <;> decide

end Kind

/-- A token. -/
structure Token where
  kind : Kind
  literal : String
  pos : Pos
deriving DecidableEq

namespace Token

/-- Whether two tokens agree in kind and literal. -/
def same (a b : Token) : Bool := a.kind = b.kind && a.literal = b.literal

/-- How a message speaks of a token. -/
def mention (t : Token) : String :=
  if t.kind = .eof then "end of input"
  else "'" ++ t.literal ++ "' at " ++ t.pos.describe

/-- A token written out in full. -/
def shown (t : Token) : String :=
  "Token(" ++ t.kind.name ++ ", " ++ Quoted.quote t.literal ++ ", "
    ++ Decimal.ofInt t.pos.line ++ ", " ++ Decimal.ofInt t.pos.col ++ ")"

/-- A token as a line of a listing: where it stands, its kind and its literal. -/
def listed (t : Token) : String :=
  Decimal.ofInt t.pos.line ++ ":" ++ Decimal.ofInt t.pos.col ++ "\t" ++ t.kind.name ++ "\t"
    ++ Quoted.quote t.literal

end Token

end ExprScript
