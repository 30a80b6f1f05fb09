/-!
# Command line arguments

The arguments are taken from left to right.  The first one that asks for help, or that is
not understood, decides.  An empty argument names no file, so another one may follow it.
-/

namespace ExprScript.Command

/-- What a command line asks for. -/
structure Options where
  tokens : Bool
  tree : Bool
  echo : Bool
  verbose : Bool
  file : String
deriving DecidableEq

/-- The options before any argument is taken. -/
def Options.default : Options := ⟨false, false, false, false, ""⟩

/-- What becomes of a command line. -/
inductive Request where
  | help
  | unknownFlag (arg : String)
  | unexpectedArgument (arg : String)
  | work (options : Options)
deriving DecidableEq

/-- Takes the arguments that follow some options. -/
def Options.take (o : Options) : List String → Request
  | [] => .work o
  | arg :: args =>
    if arg = "--help" ∨ arg = "-h" then .help
    else if arg = "--tokens" then take { o with tokens := true } args
    else if arg = "--ast" then take { o with tree := true } args
    else if arg = "--echo" then take { o with echo := true } args
    else if arg = "--verbose" ∨ arg = "-v" then take { o with verbose := true } args
    else if arg.toList.head? = some '-' then .unknownFlag arg
    else if o.file = "" then take { o with file := arg } args
    else .unexpectedArgument arg

/-- What a command line asks for. -/
def Request.ofArgs (args : List String) : Request := Options.default.take args

end ExprScript.Command
