import BraceBalance.Rendering
import BraceBalance.Sink

/-!
# Notices

What a reader of the output is told: diagnostics against a source, plain lines and a closing count. They
are written one after the other, and one that is refused does not keep the next from being tried.
-/

namespace BraceBalance

inductive Notice where
  | diagnostic (source : Source) (d : Diagnostic)
  | diagnostics (source : Source) (ds : List Diagnostic)
  | line (text : String)
  | count (errors warnings : Nat)

namespace Notice

def pieces (colors : Bool) : Notice → Except Fault (List String)
  | diagnostic source d => Rendering.diagnostic colors source d
  | diagnostics source ds => Rendering.diagnostics colors source ds
  | line text => return Rendering.line text
  | count errors warnings => return Rendering.summary colors errors warnings

def write (colors : Bool) (out : Sink) (n : Notice) : Except Fault Sink := do
  return out.writeAny (← n.pieces colors)

def writeAll (colors : Bool) (out : Sink) (ns : List Notice) : Except Fault Sink :=
  ns.foldlM (write colors) out

end Notice

end BraceBalance
