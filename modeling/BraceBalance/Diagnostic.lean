/-!
# Diagnostics

One finding about a text: a code, how severe it is, the offset it points at, a message and notes.
Lines and columns are worked out only when a diagnostic is written.
-/

namespace BraceBalance

inductive Severity where
  | error
  | warning
  deriving DecidableEq, Repr

def Severity.name : Severity → String
  | error => "error"
  | warning => "warning"

inductive Code where
  | unmatchedClose
  | unclosedOpen
  | openAtEnd
  | bodyNotClosed
  | badAnchor
  | encoding
  deriving DecidableEq, Repr

namespace Code

def all : List Code :=
  [unmatchedClose, unclosedOpen, openAtEnd, bodyNotClosed, badAnchor, encoding]

/-- The code as it is written. -/
def name : Code → String
  | unmatchedClose => "B0001"
  | unclosedOpen => "B0002"
  | openAtEnd => "B0003"
  | bodyNotClosed => "B0004"
  | badAnchor => "B0005"
  | encoding => "B0006"

/-- One line that explains the code. -/
def description : Code → String
  | unmatchedClose => "a `\x7d` in code has no matching `\x7b` before it"
  | unclosedOpen => "a `\x7b` in code is never closed"
  | openAtEnd => "a block comment, string or template literal is still open at end of text"
  | bodyNotClosed => "the body of the named construct runs to end of text"
  | badAnchor => "the anchor offset does not hold a `\x7b` in code"
  | encoding => "the source text has a byte order mark or null bytes"

/-- Reads a code; the case of ASCII letters does not matter. -/
def parse? (s : String) : Option Code :=
  all.find? fun c => c.name.toList.map Char.toLower == s.toList.map Char.toLower

end Code

structure Diagnostic where
  code : Code
  severity : Severity
  offset : Nat
  message : String
  /-- Lines written below the source line. -/
  notes : List String
  deriving DecidableEq, Repr

namespace Diagnostic

def isError (d : Diagnostic) : Bool := d.severity == .error

def errorCount (ds : List Diagnostic) : Nat := ds.countP isError

def warningCount (ds : List Diagnostic) : Nat := ds.length - errorCount ds

end Diagnostic

end BraceBalance
