import BraceBalance.Position

/-! A named text with its line table: what a diagnostic is shown against. -/

namespace BraceBalance

structure Source where
  path : String
  text : String
  lines : LineTable

namespace Source

def ofText (path text : String) : Source := ⟨path, text, .ofBytes (Text.bytes text)⟩

def position (s : Source) (offset : Nat) : Except Fault (Option Position) :=
  s.lines.position offset

/-- A line without the carriage return of a two-byte line end. -/
def dropReturn (line : List Char) : List Char :=
  if line.getLast? = some '\r' then line.dropLast else line

/-- A line without its line end. -/
def lineText (s : Source) (line : Nat) : Except Fault (Option String) := do
  match ← s.lines.lineRange line with
  | none => return none
  | some (start, stop) =>
    return (Text.slice? s.text start stop).map fun cs => String.ofList (dropReturn cs)

/-- The place of an offset, and the line it is on if that can be shown. -/
def spot (s : Source) (offset : Nat) : Except Fault (Option (Position × Option String)) := do
  match ← s.position offset with
  | none => return none
  | some p => return some (p, ← s.lineText p.line)

end Source

end BraceBalance
