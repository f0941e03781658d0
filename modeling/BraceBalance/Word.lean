/-!
# Machine words

Offsets, lines and columns are unsigned numbers of 32 bits, and the brace depth is a signed number
of 64 bits. Arithmetic that would leave its word does not wrap: it is a `Fault`, and so is a read
outside a buffer. Everything that can meet one answers in `Except Fault`, so "no fault arises" is a
statement about the functions that run.
-/

namespace BraceBalance

inductive Fault where
  | overflow
  | outOfBounds
  deriving DecidableEq, Repr

/-- The greatest offset, and so the greatest length of a text. -/
def maxOffset : Nat := 4294967295

def minDepth : Int := -9223372036854775808

def maxDepth : Int := 9223372036854775807

/-- An offset that fits its word. -/
def checkOffset (n : Nat) : Except Fault Nat :=
  if n ≤ maxOffset then .ok n else .error .overflow

/-- `n` as an offset, if it fits its word. -/
def offset? (n : Nat) : Option Nat := if n ≤ maxOffset then some n else none

/-- The offset before `n`. -/
def offsetBefore : Nat → Except Fault Nat
  | 0 => .error .overflow
  | n + 1 => .ok n

def checkDepth (d : Int) : Except Fault Int :=
  if minDepth ≤ d ∧ d ≤ maxDepth then .ok d else .error .overflow

/-- The nearest offset to a length that may be too great for one. -/
def saturate (n : Nat) : Nat := min n maxOffset

/-- What comes out of two steps without fault came out of the first without fault. -/
theorem exists_of_bind_eq_ok {α β : Type} {x : Except Fault α} {f : α → Except Fault β} {y : β}
    (h : x >>= f = .ok y) : ∃ a, x = .ok a ∧ f a = .ok y := by
  cases x with
  | error fault => cases h
  | ok a => exact ⟨a, rfl, h⟩

theorem checkOffset_of_le {n : Nat} (h : n ≤ maxOffset) : checkOffset n = .ok n := if_pos h

theorem offset?_of_le {n : Nat} (h : n ≤ maxOffset) : offset? n = some n := if_pos h

@[simp] theorem offsetBefore_succ (n : Nat) : offsetBefore (n + 1) = .ok n := rfl

theorem checkDepth_of_mem {d : Int} (hl : minDepth ≤ d) (hu : d ≤ maxDepth) :
    checkDepth d = .ok d := if_pos ⟨hl, hu⟩

theorem saturate_of_le {n : Nat} (h : n ≤ maxOffset) : saturate n = n := Nat.min_eq_left h

end BraceBalance
