import BraceBalance.Body

/-!
# Named constructs

A construct is named by any string that occurs in the text. Its body opens at the first brace after
the first occurrence of the name; that the brace counts is checked when the body is scanned.
-/

namespace BraceBalance

/-- Where `name` first occurs in bytes that start at `pos`. -/
def firstOccurrence (name : List UInt8) : (bytes : List UInt8) → (pos : Nat) → Option Nat
  | [], pos => if name.isEmpty then some pos else none
  | b :: rest, pos =>
    if name.isPrefixOf (b :: rest) then some pos else firstOccurrence name rest (pos + 1)

/-- Offset of the first occurrence of `name`; none if it is past the greatest offset. -/
def findName (name bytes : List UInt8) : Option Nat :=
  (firstOccurrence name bytes 0).bind offset?

/-- Offset of the first opening brace at or after `start`; none if it is past the greatest offset. -/
def findBrace (bytes : List UInt8) (start : Nat) : Option Nat :=
  ((bytes.drop start).findIdx? (· == Byte.openBrace)).bind fun i => offset? (start + i)

structure Construct where
  /-- Where the name was found. -/
  nameOffset : Nat
  body : Body
  deriving DecidableEq, Repr

/-- Why a named construct has no body to scan. -/
inductive ConstructError where
  | nameNotFound (name : String)
  | noOpeningBrace (name : String) (nameOffset : Nat)
  | anchor (e : AnchorError)
  deriving DecidableEq, Repr

namespace Construct

/-- Where the name occurs and the body after it opens. -/
def locate (text : String) (name : String) : Except ConstructError (Nat × Nat) :=
  let bytes := Text.bytes text
  let name' := Text.bytes name
  match findName name' bytes with
  | none => .error (.nameNotFound name)
  | some nameOffset =>
    match findBrace bytes (nameOffset + name'.length) with
    | none => .error (.noOpeningBrace name nameOffset)
    | some anchor => .ok (nameOffset, anchor)

/-- Where the body after the name would open, whether or not the brace there counts. -/
def anchor? (text : String) (name : String) : Option Nat :=
  (locate text name).toOption.map Prod.snd

def find (text : String) (name : String) : Except Fault (Except ConstructError Construct) :=
  match locate text name with
  | .error e => return .error e
  | .ok (nameOffset, anchor) => do
    match ← (Buffer.ofText text).bodyAt anchor with
    | .error e => return .error (.anchor e)
    | .ok body => return .ok ⟨nameOffset, body⟩

end Construct

end BraceBalance
