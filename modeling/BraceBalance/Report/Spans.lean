import BraceBalance.Failure
import BraceBalance.Position
import BraceBalance.Sink
import BraceBalance.Span
import BraceBalance.Text.Quoted

/-! The table of a text's spans: a line of four tab-separated fields for each. -/

namespace BraceBalance.SpanReport

/-- Characters of a span that are shown. -/
def snippetLength : Nat := 24

/-- The line of one span: its place, its range, its region and how it begins. -/
def row (text : String) (lines : LineTable) (s : Span) : Except Fault (List String) := do
  let place := match ← lines.position s.start with
    | some p => p.text
    | none => ""
  let snippet := ((Text.slice? text s.start s.stop).getD []).take snippetLength
  return [place, "\t", toString s.start, "..", toString s.stop, "\t", s.region.name, "\t",
    Text.Quoted.text snippet, "\n"]

def ofText (text : String) : Except Fault (List String) := do
  let lines := LineTable.ofBytes (Text.bytes text)
  let spans ← (Buffer.ofText text).spans
  List.flatten <$> spans.mapM (row text lines)

def writeText (text : String) (out : Sink) : Except Fault (Sink × Except CommandError Unit) := do
  match out.writeAll (← ofText text) with
  | (out, true) => return (out, .ok ())
  | (out, false) => return (out, .error .output)

/-- Writes the table of the file at `path`. -/
def write (read : Reader) (path : String) (out : Sink) :
    Except Fault (Sink × Except CommandError Unit) :=
  match read path with
  | .error e => return (out, .error (.read e))
  | .ok text => writeText text out

end BraceBalance.SpanReport
