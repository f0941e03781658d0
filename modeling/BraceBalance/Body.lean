import BraceBalance.Tally

/-!
# Bodies

A body runs from an opening brace that counts, its anchor, to the brace that closes it. The anchor
is checked against a reading of the text from its start; the body itself is then scanned as if the
text began at the anchor.
-/

namespace BraceBalance

structure Body where
  anchor : Nat
  /-- The matching brace; none if the text ends first. -/
  closing : Option Nat
  deriving DecidableEq, Repr

def Body.isTerminated (b : Body) : Bool := b.closing.isSome

/-- Why no body starts at an offset. -/
inductive AnchorError where
  | outOfBounds (offset length : Nat)
  | notOpenBrace (offset : Nat) (found : Char)
  /-- A brace that does not count, in `region`. -/
  | notStructural (offset : Nat) (region : Region)
  deriving DecidableEq, Repr

namespace Buffer

/-- Whether the byte at `anchor` is an opening brace that counts. -/
def checkAnchor (b : Buffer) (anchor : Nat) : Except Fault (Except AnchorError Unit) :=
  match b.text[anchor]? with
  | none => return .error (.outOfBounds anchor b.length)
  | some found =>
    if found = Byte.openBrace then do
      let before ← Lexer.start.run (b.text.take anchor)
      let (role, _) ← before.feed found
      return if role = .openBrace then .ok () else .error (.notStructural anchor before.region)
    else return .error (.notOpenBrace anchor (Char.ofNat found.toNat))

def bodyAt (b : Buffer) (anchor : Nat) : Except Fault (Except AnchorError Body) := do
  match ← b.checkAnchor anchor with
  | .error e => return .error e
  | .ok () =>
    let (closing, _) ← b.scan anchor .balanced .start
    return .ok ⟨anchor, closing⟩

end Buffer

end BraceBalance
