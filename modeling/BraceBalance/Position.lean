import BraceBalance.Text
import BraceBalance.Word

/-!
# Lines and columns

Lines end at a newline byte only, the byte that also ends a line comment; a carriage return is an
ordinary byte. Lines and columns count from 1, and columns count bytes. One offset is placed by
counting in the text before it; a `LineTable` places many.
-/

namespace BraceBalance

structure Position where
  line : Nat
  column : Nat
  deriving DecidableEq, Repr

def Position.text (p : Position) : String := toString p.line ++ ":" ++ toString p.column

/-- The place of `offset`, which may be the end of the text but not beyond. -/
def Position.find (bytes : List UInt8) (offset : Nat) : Option Position :=
  if offset ≤ bytes.length then
    let before := bytes.take offset
    let onLine := before.reverse.takeWhile (· != Byte.newline)
    some ⟨saturate (before.count Byte.newline + 1), saturate (onLine.length + 1)⟩
  else none

structure LineTable where
  /-- Offset of the first byte of each line, ascending from 0. -/
  starts : List Nat
  /-- Length of the text. -/
  length : Nat
  deriving DecidableEq, Repr

namespace LineTable

def ofBytes (bytes : List UInt8) : LineTable where
  starts := 0 :: bytes.zipIdx.filterMap fun (b, i) =>
    if b = Byte.newline ∧ i + 1 ≤ maxOffset then some (i + 1) else none
  length := saturate bytes.length

/-- The place of `offset`: the line is the last that starts at or before it. -/
def position (t : LineTable) (offset : Nat) : Except Fault (Option Position) :=
  if t.length < offset then return none
  else
    let begun := t.starts.takeWhile (· ≤ offset)
    match begun.getLast? with
    | none => .error .overflow
    | some start => do
      let column ← checkOffset (offset - start + 1)
      return some ⟨saturate begun.length, column⟩

/-- Offset of the first byte of a line; lines count from 1. -/
def lineStart (t : LineTable) : Nat → Option Nat
  | 0 => none
  | line + 1 => t.starts[line]?

/-- Where a line starts and where its newline, or the text, ends it. -/
def lineRange (t : LineTable) (line : Nat) : Except Fault (Option (Nat × Nat)) :=
  match t.lineStart line with
  | none => return none
  | some start => do
    let next ← checkOffset (line + 1)
    match t.lineStart next with
    | none => return some (start, t.length)
    | some nextStart => return some (start, ← offsetBefore nextStart)

/-- A newline at the end of the text starts one more line, which is empty. -/
def lineCount (t : LineTable) : Nat := t.starts.length

end LineTable

end BraceBalance
