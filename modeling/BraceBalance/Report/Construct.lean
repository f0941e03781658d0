import BraceBalance.Failure
import BraceBalance.Findings
import BraceBalance.Rendering
import BraceBalance.Sink

/-!
# The report on a named construct

Says where the body of a construct opens and closes. A missing name, a brace that does not count and
a body that never closes are all reported results.
-/

namespace BraceBalance.ConstructReport

/-- An offset as line and column, or as itself where it has no place. -/
def placeText (source : Source) (offset : Nat) : Except Fault String := do
  match ← source.position offset with
  | some p => return p.text
  | none => return s!"offset {offset}"

def found (colors : Bool) (source : Source) (name : String) (c : Construct) :
    Except Fault (List String) := do
  let opening := source.path ++ ": `" ++ name ++ "` opens at " ++
    (← placeText source c.body.anchor)
  match c.body.closing with
  | some closing =>
    return Rendering.line (opening ++ ", closes at " ++ (← placeText source closing))
  | none =>
    let shown ← Rendering.diagnostics colors source (c.finding? name).toList
    return Rendering.line (opening ++ ", never closes") ++ shown

def notFound (colors : Bool) (source : Source) (name : String) (e : ConstructError) :
    Except Fault (List String) :=
  match e.finding? with
  | some d => do
    let shown ← Rendering.diagnostic colors source d
    return Rendering.line (source.path ++ ": `" ++ name ++ "` could not be scanned") ++ shown
  | none => return Rendering.line (source.path ++ ": " ++ e.message)

def ofText (colors : Bool) (path text name : String) : Except Fault (List String) := do
  let source := Source.ofText path text
  match ← Construct.find text name with
  | .ok c => found colors source name c
  | .error e => notFound colors source name e

/-- Writes the report on a name in a text; a refused write is no failure. -/
def writeText (colors : Bool) (path text name : String) (out : Sink) : Except Fault Sink := do
  return out.writeAny (← ofText colors path text name)

/-- Writes the report on a name in the file at `path`. -/
def write (read : Reader) (colors : Bool) (path name : String) (out : Sink) :
    Except Fault (Sink × Except CommandError Unit) :=
  match read path with
  | .error e => return (out, .error (.read e))
  | .ok text => do return (← writeText colors path text name out, .ok ())

end BraceBalance.ConstructReport
