import BraceBalance.Diagnostic
import BraceBalance.Failure
import BraceBalance.Sink

/-! The explanation of a diagnostic code. -/

namespace BraceBalance.CodeReport

def write (code : String) (out : Sink) : Sink × Except CommandError Unit :=
  match Code.parse? code with
  | none => (out, .error (.unknownCode code))
  | some c =>
    match out.writeAll [c.name, ": ", c.description, "\n"] with
    | (out, true) => (out, .ok ())
    | (out, false) => (out, .error .output)

end BraceBalance.CodeReport
