/-! The bytes that mean something to the lexer, and the classes of bytes the renderer asks about. -/

namespace BraceBalance.Byte

abbrev tab : UInt8 := 0x09
abbrev newline : UInt8 := 0x0a
abbrev doubleQuote : UInt8 := 0x22
abbrev dollar : UInt8 := 0x24
abbrev singleQuote : UInt8 := 0x27
abbrev star : UInt8 := 0x2a
abbrev slash : UInt8 := 0x2f
abbrev backslash : UInt8 := 0x5c
abbrev backtick : UInt8 := 0x60
abbrev openBrace : UInt8 := 0x7b
abbrev closeBrace : UInt8 := 0x7d

/-- A byte inside a multi-byte character, after its first: `10xxxxxx`. -/
def isContinuation (b : UInt8) : Bool := b &&& 0xc0 == 0x80

end BraceBalance.Byte
