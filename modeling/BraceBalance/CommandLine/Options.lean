import BraceBalance.Failure
import BraceBalance.Rendering

/-! The arguments that the commands take. A later color mode wins over an earlier one. -/

namespace BraceBalance

/-- How an argument that sets the color mode begins. -/
def colorFlag : List Char := "--color=".toList

/-- The color mode that `arg` sets; none if it is another argument. -/
def colorArgument? (arg : String) : Option (Except UsageError ColorMode) :=
  if colorFlag.isPrefixOf arg.toList then
    let mode := String.ofList (arg.toList.drop colorFlag.length)
    some (match ColorMode.parse? mode with
      | some m => .ok m
      | none => .error (.colorMode mode))
  else none

structure CheckOptions where
  /-- Files to check, in output order. -/
  paths : List String
  color : ColorMode
  /-- Whether files may be scanned at the same time; the output is the same. -/
  parallel : Bool
  deriving DecidableEq, Repr

namespace CheckOptions

/-- The file checked when none is named. -/
def defaultPath : String := "convex/game.ts"

def default : CheckOptions := ⟨[defaultPath], .auto, true⟩

def addArgument (o : CheckOptions) (arg : String) : Except UsageError CheckOptions :=
  match colorArgument? arg with
  | some (.ok color) => .ok { o with color }
  | some (.error e) => .error e
  | none =>
    if arg = "--no-parallel" then .ok { o with parallel := false }
    else if arg.toList.head? = some '-' then .error (.unknownOption arg)
    else .ok { o with paths := o.paths ++ [arg] }

def parse (args : List String) : Except UsageError CheckOptions := do
  let o ← args.foldlM addArgument { default with paths := [] }
  return if o.paths.isEmpty then { o with paths := default.paths } else o

end CheckOptions

structure FindOptions where
  path : String
  /-- Searched for as it stands. -/
  name : String
  color : ColorMode
  deriving DecidableEq, Repr

namespace FindOptions

/-- The color mode and the other arguments in order, with one more argument. -/
def addArgument (acc : ColorMode × List String) (arg : String) :
    Except UsageError (ColorMode × List String) :=
  match colorArgument? arg with
  | some (.ok color) => .ok (color, acc.2)
  | some (.error e) => .error e
  | none => .ok (acc.1, acc.2 ++ [arg])

def parse (args : List String) : Except UsageError FindOptions := do
  match ← args.foldlM addArgument (.auto, []) with
  | (color, [path, name]) => return ⟨path, name, color⟩
  | _ => .error .findArguments

end FindOptions

end BraceBalance
