import BraceBalance.Text.Printable

/-!
# Quoted text

A text or a single character is quoted so that it stays on one line and shows what it holds:
control, unassigned and combining characters are written by their code point. The delimiting quote
is escaped and the other one is not.
-/

namespace BraceBalance.Text.Quoted

/-- A code point in lower-case hexadecimal without padding. -/
def codePoint (c : Char) : String :=
  "\\u\x7b" ++ String.ofList (Nat.toDigits 16 c.toNat) ++ "\x7d"

def escape (delimiter c : Char) : String :=
  if c = '\x00' then "\\0"
  else if c = '\t' then "\\t"
  else if c = '\r' then "\\r"
  else if c = '\n' then "\\n"
  else if c = '\\' then "\\\\"
  else if c = delimiter then String.ofList ['\\', c]
  else if isCombining c then codePoint c
  else if isPrintable c then String.ofList [c]
  else codePoint c

/-- A text between double quotes. -/
def text (cs : List Char) : String :=
  "\"" ++ String.join (cs.map (escape '\x22')) ++ "\""

/-- A character between single quotes. -/
def char (c : Char) : String := "'" ++ escape '\x27' c ++ "'"

end BraceBalance.Text.Quoted
