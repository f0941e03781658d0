import BraceBalance.Text
import BraceBalance.Word

/-!
# Encoding issues

A byte order mark shifts every column of the first line, and a null byte looks like the end of a
text to other tools. Both are noted and neither stops a scan.
-/

namespace BraceBalance

inductive EncodingIssue.Kind where
  | byteOrderMark
  | nullByte
  deriving DecidableEq, Repr

def EncodingIssue.Kind.describe : EncodingIssue.Kind → String
  | byteOrderMark => "UTF-8 byte order mark at start of file"
  | nullByte => "null byte inside source text"

structure EncodingIssue where
  kind : EncodingIssue.Kind
  offset : Nat
  /-- Length of the offending bytes. -/
  length : Nat
  deriving DecidableEq, Repr

namespace EncodingIssue

def byteOrderMark : List UInt8 := [0xef, 0xbb, 0xbf]

/-- A byte order mark at the start, then every null byte in order. -/
def detect (bytes : List UInt8) : List EncodingIssue :=
  (if byteOrderMark.isPrefixOf bytes then [⟨.byteOrderMark, 0, 3⟩] else []) ++
    bytes.zipIdx.filterMap fun (b, i) =>
      if b = 0 ∧ i ≤ maxOffset then some ⟨.nullByte, i, 1⟩ else none

end EncodingIssue

end BraceBalance
