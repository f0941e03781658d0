import BraceBalance.Byte

/-!
# Texts as bytes

A text is a string. Offsets count the bytes of its UTF-8 form, so a byte range of a text is itself
a text only when both of its ends stand between two characters.
-/

namespace BraceBalance.Text

/-- The UTF-8 form of a text. -/
def bytes (s : String) : List UInt8 := s.toList.flatMap String.utf8EncodeChar

/-- What is left after the first `n` bytes; `none` if that cut falls inside a character or past the
end. -/
def dropBytes? : List Char → Nat → Option (List Char)
  | cs, 0 => some cs
  | [], _ + 1 => none
  | c :: cs, n + 1 => if c.utf8Size ≤ n + 1 then dropBytes? cs (n + 1 - c.utf8Size) else none

/-- The characters that make up the first `n` bytes, after those in `seen` (latest first). -/
def takeBytesAfter? (seen : List Char) : List Char → Nat → Option (List Char)
  | _, 0 => some seen.reverse
  | [], _ + 1 => none
  | c :: cs, n + 1 =>
    if c.utf8Size ≤ n + 1 then takeBytesAfter? (c :: seen) cs (n + 1 - c.utf8Size) else none

/-- The bytes from `start` up to `stop`, if they are a text of their own. -/
def slice? (s : String) (start stop : Nat) : Option (List Char) :=
  if start ≤ stop then
    (dropBytes? s.toList start).bind fun cs => takeBytesAfter? [] cs (stop - start)
  else none

/-- Offset `n` stands between two characters, or at an end of the text. -/
def IsBoundary (s : String) (n : Nat) : Prop := (dropBytes? s.toList n).isSome

@[simp] theorem bytes_empty : bytes "" = [] := rfl

theorem bytes_append (s t : String) : bytes (s ++ t) = bytes s ++ bytes t := by
  simp [bytes, String.toList_append]

end BraceBalance.Text
