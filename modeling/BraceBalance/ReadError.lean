import BraceBalance.Word

/-! Why a file could not be read, and the limit on its size. -/

namespace BraceBalance

/-- What the operating system says of a path it cannot read. -/
inductive PathError where
  | isDirectory
  | notDirectory
  | nameTooLong
  | nullByte
  | other (description : String)
  deriving DecidableEq, Repr

def PathError.message : PathError → String
  | isDirectory => "Is a directory (os error 21)"
  | notDirectory => "Not a directory (os error 20)"
  | nameTooLong => "File name too long (os error 36)"
  | nullByte => "file name contained an unexpected NUL byte"
  | other description => description

inductive ReadError where
  | notFound (path : String)
  | permissionDenied (path : String)
  | invalidUtf8 (path : String)
  | tooLarge (path : String) (size : Nat)
  | unreadable (path : String) (cause : PathError)
  deriving DecidableEq, Repr

namespace ReadError

def message : ReadError → String
  | notFound path => "cannot find file '" ++ path ++ "'"
  | permissionDenied path => "permission denied reading '" ++ path ++ "'"
  | invalidUtf8 path => "'" ++ path ++ "' contains invalid UTF-8 data"
  | tooLarge path size =>
    "'" ++ path ++ s!"' is {size} bytes; files over {maxOffset} bytes cannot be scanned"
  | unreadable path cause => "error reading '" ++ path ++ "': " ++ cause.message

end ReadError

/-- Refuses a file in which some byte would have no offset. -/
def checkSize (path : String) (size : Nat) : Except ReadError Unit :=
  if size ≤ maxOffset then .ok () else .error (.tooLarge path size)

/-- The text of a file. -/
def decodeText (path : String) (bytes : ByteArray) : Except ReadError String :=
  match String.fromUTF8? bytes with
  | some text => .ok text
  | none => .error (.invalidUtf8 path)

/-- A file system, as far as the commands see it: what reading a path gives. -/
abbrev Reader := String → Except ReadError String

end BraceBalance
