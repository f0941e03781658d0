import BraceBalance.Buffer
import BraceBalance.Lexer

/-!
# Classification of a text

Every byte of a text is labelled with its region and its role. A delimiter belongs to the region it
delimits. The first slash of a comment is the exception: when it is read nothing tells it from
division, so it is labelled as code.
-/

namespace BraceBalance

structure Label where
  offset : Nat
  region : Region
  role : Role
  deriving DecidableEq, Repr

namespace Label

/-- The region of a byte read in `before` that leaves the lexer in `after`. -/
def regionOf (before after : Region) : Region := if before = .code then after else before

def ofByte (s : Lexer) (b : UInt8) (offset : Nat) : Except Fault (Label × Lexer) := do
  let (role, next) ← s.feed b
  return (⟨offset, regionOf s.region next.region, role⟩, next)

/-- One more labelled byte; the labels are kept latest first. -/
def collectStep (acc : List Label × Lexer) (byte : UInt8 × Nat) :
    Except Fault (List Label × Lexer) := do
  let (label, next) ← ofByte acc.2 byte.1 byte.2
  return (label :: acc.1, next)

/-- The labels of a stretch of bytes, each given with its offset. -/
def collect (s : Lexer) (bytes : List (UInt8 × Nat)) : Except Fault (List Label) := do
  let acc ← bytes.foldlM collectStep ([], s)
  return acc.1.reverse

end Label

/-- Labels the bytes from `start` on, as if the text began in code there. -/
def Buffer.classify (b : Buffer) (start : Nat) : Except Fault (List Label) := do
  let cursor ← b.cursorAt start
  Label.collect .start (← cursor.rest)

end BraceBalance
