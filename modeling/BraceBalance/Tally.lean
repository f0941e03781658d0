import BraceBalance.Buffer
import BraceBalance.Lexer

/-!
# Counting braces

A `Tally` is what a scan knows: the lexer's state, the depth, the first brace that closed nothing
and the braces still open. A scan runs to the end of the text or stops at the brace that closes the
first one it opened; both ways share one loop. Imbalance is an answer here and never an error.
-/

namespace BraceBalance

structure Tally where
  lexer : Lexer
  /-- Opening braces minus closing braces so far. -/
  depth : Int
  /-- The closing brace that first took the depth below zero. -/
  firstNegative : Option Nat
  /-- Offsets of the braces still open, innermost first. -/
  pending : List Nat
  deriving DecidableEq, Repr

/-- When a scan stops. -/
inductive StopRule where
  | endOfText
  /-- At the first closing brace that brings the depth back to zero after it was positive. -/
  | balanced
  deriving DecidableEq, Repr

namespace Tally

/-- Nothing counted. -/
def start : Tally := ⟨.start, 0, none, []⟩

def opened (t : Tally) (offset : Nat) : Tally :=
  { t with depth := t.depth + 1, pending := offset :: t.pending }

/-- Closes the innermost open brace, if there is one. -/
def closed (t : Tally) (offset : Nat) : Tally :=
  { t with
    depth := t.depth - 1
    firstNegative := t.firstNegative.or (if t.depth - 1 < 0 then some offset else none)
    pending := t.pending.tail }

def count (t : Tally) (offset : Nat) : Role → Tally
  | .openBrace => t.opened offset
  | .closeBrace => t.closed offset
  | .code | .inert | .placeholderOpen | .placeholderClose => t

/-- One byte of the text. -/
def feed (t : Tally) (b : UInt8) (offset : Nat) : Except Fault (Role × Tally) := do
  let (role, lexer) ← t.lexer.feed b
  let next := count { t with lexer } offset role
  let _ ← checkDepth next.depth
  return (role, next)

/-- Scans `bytes`. The answer is the closing brace it stopped at, if any; `wasPositive` says whether
this scan has seen a positive depth after an opening brace. -/
def scan (stop : StopRule) (wasPositive : Bool) (t : Tally) :
    List (UInt8 × Nat) → Except Fault (Option Nat × Tally)
  | [] => .ok (none, t)
  | (b, offset) :: rest => do
    let (role, next) ← t.feed b offset
    match role with
    | .openBrace => scan stop (wasPositive || decide (0 < next.depth)) next rest
    | .closeBrace =>
      if stop = .balanced ∧ wasPositive = true ∧ next.depth = 0 then .ok (some offset, next)
      else scan stop wasPositive next rest
    | .code | .inert | .placeholderOpen | .placeholderClose => scan stop wasPositive next rest

/-- Braces still open, outermost first. -/
def unclosed (t : Tally) : List Nat := t.pending.reverse

end Tally

/-- Scans from `start` on, going on from what `t` has counted. -/
def Buffer.scan (b : Buffer) (start : Nat) (stop : StopRule) (t : Tally) :
    Except Fault (Option Nat × Tally) := do
  let cursor ← b.cursorAt start
  t.scan stop false (← cursor.rest)

/-- What a scan of a whole text found. -/
structure Balance where
  finalDepth : Int
  firstNegative : Option Nat
  /-- Opening braces never closed, outermost first. -/
  unclosed : List Nat
  endRegion : Region
  deriving DecidableEq, Repr

namespace Balance

def isBalanced (r : Balance) : Bool := r.finalDepth == 0 && r.firstNegative.isNone

def ofTally (t : Tally) : Balance := ⟨t.depth, t.firstNegative, t.unclosed, t.lexer.region⟩

end Balance

def Buffer.balance (b : Buffer) : Except Fault Balance := do
  let (_, t) ← b.scan 0 .endOfText .start
  return .ofTally t

end BraceBalance
