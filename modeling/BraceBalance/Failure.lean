import BraceBalance.ReadError

/-! Why a command fails. Unbalanced braces are never a failure: they are what a command reports. -/

namespace BraceBalance

/-- Arguments that a command does not take. -/
inductive UsageError where
  | colorMode (mode : String)
  | unknownOption (arg : String)
  | findArguments
  | regionsArguments
  | explainArguments
  deriving DecidableEq, Repr

def UsageError.message : UsageError → String
  | colorMode mode => "invalid color mode '" ++ mode ++ "' (expected auto, always or never)"
  | unknownOption arg => "unknown option '" ++ arg ++ "'"
  | findArguments => "expected a path and a name: brace find <PATH> <NAME>"
  | regionsArguments => "expected one path: brace regions <PATH>"
  | explainArguments => "expected one code: brace explain <CODE>"

inductive CommandError where
  | read (e : ReadError)
  | unknownCode (code : String)
  | usage (e : UsageError)
  /-- The sink had no room. -/
  | output
  deriving DecidableEq, Repr

def CommandError.message : CommandError → String
  | read e => e.message
  | unknownCode code => "unknown error code `" ++ code ++ "`"
  | usage e => e.message
  | output => "cannot write output: sink full"

end BraceBalance
