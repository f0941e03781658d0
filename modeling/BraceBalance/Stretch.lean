import BraceBalance.Position

/-!
# Stretches

A text with many equal bytes in a row is known by those bytes and how often each stands there. Its
offsets are placed without writing it out, which matters near the greatest length of a text.
-/

namespace BraceBalance

/-- One byte, `count` times in a row. -/
structure Stretch where
  byte : UInt8
  count : Nat
  deriving DecidableEq, Repr

namespace Stretch

def bytes (s : Stretch) : List UInt8 := List.replicate s.count s.byte

/-- The text, written out. -/
def expand (ss : List Stretch) : List UInt8 := ss.flatMap bytes

/-- The length of the text. -/
def totalLength (ss : List Stretch) : Nat := ss.foldl (fun n s => n + s.count) 0

@[simp] theorem expand_nil : expand [] = [] := rfl

@[simp] theorem expand_cons (s : Stretch) (ss : List Stretch) :
    expand (s :: ss) = s.bytes ++ expand ss := rfl

@[simp] theorem length_bytes (s : Stretch) : s.bytes.length = s.count := List.length_replicate

end Stretch

namespace Position

def start : Position := ⟨1, 1⟩

/-- The place behind `n` bytes `b` that stand at `p`, counted without bound. -/
def pass (p : Position) (b : UInt8) (n : Nat) : Position :=
  if b ≠ Byte.newline then ⟨p.line, p.column + n⟩
  else if n = 0 then p
  else ⟨p.line + n, 1⟩

def saturated (p : Position) : Position := ⟨saturate p.line, saturate p.column⟩

/-- The place that `offset` has in stretches that stand at `p`. -/
def findFrom (p : Position) : List Stretch → Nat → Option Position
  | [], 0 => some p.saturated
  | [], _ + 1 => none
  | s :: ss, offset =>
    if offset ≤ s.count then some (p.pass s.byte offset).saturated
    else findFrom (p.pass s.byte s.count) ss (offset - s.count)

/-- The place of `offset`, counted stretch by stretch. -/
def findInStretches (ss : List Stretch) (offset : Nat) : Option Position := findFrom start ss offset

end Position

namespace LineTable

/-- Where lines start in stretches that stand at `offset`, after those in `seen` (latest first). -/
def collectStarts (seen : List Nat) (offset : Nat) : List Stretch → List Nat
  | [] => seen.reverse
  | s :: ss =>
    if s.byte = Byte.newline then
      let starts := (List.range' (offset + 1) s.count).filter (· ≤ maxOffset)
      collectStarts (starts.reverse ++ seen) (offset + s.count) ss
    else collectStarts seen (offset + s.count) ss

def ofStretches (ss : List Stretch) : LineTable where
  starts := collectStarts [0] 0 ss
  length := saturate (Stretch.totalLength ss)

end LineTable

end BraceBalance
