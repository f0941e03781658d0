import BraceBalance.Byte

/-!
# Lexical regions

A text in a C-family language is cut into code, comments, quoted strings and template literals.
Braces count only in code and in the placeholders of a template literal, whose region therefore
carries the number of braces open in its current placeholder.
-/

namespace BraceBalance

inductive Quote where
  | single
  | double
  deriving DecidableEq, Repr

def Quote.byte : Quote → UInt8
  | .single => Byte.singleQuote
  | .double => Byte.doubleQuote

inductive Region where
  | code
  /-- From two slashes to the end of the line. -/
  | lineComment
  /-- From `/*` to the next `*/`; block comments do not nest. -/
  | blockComment
  | quoted (q : Quote)
  /-- Between backticks, with the number of braces open in the current placeholder: zero in the
  literal's own text. -/
  | template (depth : Nat)
  deriving DecidableEq, Repr

namespace Region

/-- No brace of such a region ever counts. -/
def isInert : Region → Bool
  | code => false
  | template depth => depth == 0
  | lineComment | blockComment | quoted _ => true

/-- A text that ends here has left something open. The end of the text closes a line comment. -/
def isOpenAtEnd : Region → Bool
  | code | lineComment => false
  | blockComment | quoted _ | template _ => true

def isComment : Region → Bool
  | lineComment | blockComment => true
  | code | quoted _ | template _ => false

def name : Region → String
  | code => "code"
  | lineComment => "line comment"
  | blockComment => "block comment"
  | quoted .single => "single-quoted string"
  | quoted .double => "double-quoted string"
  | template 0 => "template literal"
  | template (_ + 1) => "template placeholder"

/-- Braces open in the current placeholder; zero outside one. -/
def placeholderDepth : Region → Nat
  | template depth => depth
  | code | lineComment | blockComment | quoted _ => 0

end Region

end BraceBalance
