import BraceBalance.CommandLine
import BraceBalance.FileSystem

/-! The program: reads the files its arguments name, runs the command and writes what it wrote. -/

namespace BraceBalance

/-- The meaning of a system error code; some calls give it negated. -/
def pathErrorOf (code : UInt32) (details : String) : PathError :=
  match (if 0x80000000 ≤ code then 0 - code else code).toNat with
  | 20 => .notDirectory
  | 21 => .isDirectory
  | 36 => .nameTooLong
  | errno => .other s!"{details} (os error {errno})"

def refusalOf : IO.Error → Refusal
  | .noFileOrDirectory .. => .notFound
  | .permissionDenied .. => .permissionDenied
  | .inappropriateType _ code details | .resourceExhausted _ code details
  | .invalidArgument _ code details => .path (pathErrorOf code details)
  | e => .path (.other (toString e))

def ask {α : Type} (answer : IO α) : IO (Except Refusal α) := do
  try
    return .ok (← answer)
  catch e =>
    return .error (refusalOf e)

/-- How many bytes are read at a time where they are only counted. -/
def pieceSize : USize := 65536

/-- The size of a file. No more than a piece of it is held at a time. -/
def countBytes (path : String) : IO Nat := do
  let file ← IO.FS.Handle.mk path .read
  let mut count := 0
  repeat
    let piece ← file.read pieceSize
    if piece.isEmpty then break
    count := count + piece.size
  return count

/-- The files of the machine. -/
def disk : FileSystem IO where
  size path := ask (countBytes path)
  bytes path := ask (IO.FS.readBinFile path)

def commandLine (args : List String) : IO UInt32 := do
  let isTerminal ← (← IO.getStdout).isTty
  let read ← disk.readerOf (Command.argumentPaths args)
  match Command.runArguments read isTerminal ⟨.withRoom none, .withRoom none⟩ args with
  | .error _ => return 101
  | .ok outcome =>
    (← IO.getStdout).write ⟨outcome.streams.out.taken⟩
    (← IO.getStderr).write ⟨outcome.streams.err.taken⟩
    return outcome.status.toUInt32

end BraceBalance

def main (args : List String) : IO UInt32 := BraceBalance.commandLine args
