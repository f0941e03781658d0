import BraceBalance.Construct
import BraceBalance.Diagnostic
import BraceBalance.Encoding
import BraceBalance.Text.Quoted

/-!
# Findings

Which parts of a scan's answer are worth a diagnostic, and in what words. A scan reports imbalance
as data; these functions turn it into diagnostics.
-/

namespace BraceBalance

namespace Balance

def unmatchedFinding (r : Balance) (offset : Nat) : Diagnostic :=
  { code := .unmatchedClose, severity := .error, offset
    message := "unmatched closing brace"
    notes := if r.finalDepth = 0 then []
      else ["brace depth at end of text is " ++ toString r.finalDepth] }

def unclosedFinding (offset : Nat) : Diagnostic :=
  { code := .unclosedOpen, severity := .error, offset
    message := "unclosed opening brace", notes := [] }

def openAtEndFinding (r : Balance) (length : Nat) : Diagnostic :=
  { code := .openAtEnd, severity := .error, offset := length
    message := "unterminated " ++ r.endRegion.name ++ " at end of text"
    notes := ["braces after the opening delimiter were not counted"] }

/-- The findings on a text of `length` bytes: the first brace that closes nothing, every brace left
open, and a literal or comment left open at the end. -/
def findings (r : Balance) (length : Nat) : List Diagnostic :=
  (r.firstNegative.map r.unmatchedFinding).toList ++ r.unclosed.map unclosedFinding ++
    (if r.endRegion.isOpenAtEnd then [r.openAtEndFinding length] else [])

end Balance

def EncodingIssue.finding (i : EncodingIssue) : Diagnostic :=
  { code := .encoding, severity := .warning, offset := i.offset
    message := i.kind.describe, notes := [] }

namespace AnchorError

def message : AnchorError → String
  | outOfBounds offset length =>
    s!"anchor offset {offset} is out of bounds for a text of {length} bytes"
  | notOpenBrace offset found =>
    s!"anchor offset {offset} holds " ++ Text.Quoted.char found ++ ", not an opening brace"
  | notStructural offset region =>
    s!"opening brace at offset {offset} is inside a " ++ region.name ++ ", not code"

/-- The offset at fault, or the end of a text that is too short to hold it. -/
def place : AnchorError → Nat
  | outOfBounds _ length => length
  | notOpenBrace offset _ | notStructural offset _ => offset

def finding (e : AnchorError) : Diagnostic :=
  { code := .badAnchor, severity := .error, offset := e.place, message := e.message, notes := [] }

end AnchorError

namespace ConstructError

def message : ConstructError → String
  | nameNotFound name => "`" ++ name ++ "` does not occur in the text"
  | noOpeningBrace name nameOffset =>
    "no opening brace follows `" ++ name ++ s!"` at offset {nameOffset}"
  | anchor e => e.message

/-- None when the name does not occur at all: no place in the text is at fault then. -/
def finding? : ConstructError → Option Diagnostic
  | nameNotFound _ => none
  | noOpeningBrace name nameOffset =>
    some { code := .badAnchor, severity := .error, offset := nameOffset
           message := (noOpeningBrace name nameOffset).message, notes := [] }
  | anchor e => some e.finding

end ConstructError

/-- A named construct whose body never closes. -/
def Construct.finding? (c : Construct) (name : String) : Option Diagnostic :=
  if c.body.closing.isSome then none
  else some
    { code := .bodyNotClosed, severity := .error, offset := c.body.anchor
      message := "body of `" ++ name ++ "` is never closed", notes := [] }

end BraceBalance
