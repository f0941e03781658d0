import BraceBalance.Failure
import BraceBalance.Findings
import BraceBalance.Rendering
import BraceBalance.Sink

/-!
# The report on a set of files

A headline and the diagnostics of each file, in the order given, and a count of errors and warnings
at the end. Only a file that cannot be read makes the exit status 1.
-/

namespace BraceBalance

/-- What checking one text found. -/
structure CheckedText where
  balance : Balance
  /-- The place of the first closing brace that closes nothing. -/
  firstNegativeAt : Option Position
  diagnostics : List Diagnostic
  /-- The headline and the diagnostics, ready to be written. -/
  rendered : String

structure CheckedPath where
  path : String
  outcome : Except ReadError CheckedText

structure CheckSummary where
  files : Nat
  unreadable : Nat
  errors : Nat
  warnings : Nat
  deriving DecidableEq, Repr

def CheckSummary.empty : CheckSummary := ⟨0, 0, 0, 0⟩

def CheckSummary.exitStatus (s : CheckSummary) : Nat := if 0 < s.unreadable then 1 else 0

/-- The totals with one more file. -/
def CheckSummary.add (s : CheckSummary) : Except ReadError CheckedText → CheckSummary
  | .ok c =>
    ⟨s.files + 1, s.unreadable, s.errors + Diagnostic.errorCount c.diagnostics,
      s.warnings + Diagnostic.warningCount c.diagnostics⟩
  | .error _ => ⟨s.files + 1, s.unreadable + 1, s.errors, s.warnings⟩

namespace CheckReport

def headline (path : String) (r : Balance) (firstNegativeAt : Option Position) : String :=
  path ++ ": depth " ++ toString r.finalDepth ++
    match firstNegativeAt with
    | some p => ", first unmatched `\x7d` at " ++ p.text
    | none => ""

def ofText (colors : Bool) (path text : String) : Except Fault CheckedText := do
  let buffer := Buffer.ofText text
  let balance ← buffer.balance
  let diagnostics :=
    (EncodingIssue.detect (Text.bytes text)).map EncodingIssue.finding ++
      balance.findings buffer.length
  let source := Source.ofText path text
  let firstNegativeAt ← match balance.firstNegative with
    | some offset => source.position offset
    | none => pure none
  let shown ← Rendering.diagnostics colors source diagnostics
  return ⟨balance, firstNegativeAt, diagnostics,
    String.join (Rendering.line (headline path balance firstNegativeAt) ++ shown)⟩

def ofPath (read : Reader) (colors : Bool) (path : String) : Except Fault CheckedPath :=
  match read path with
  | .error e => return ⟨path, .error e⟩
  | .ok text => do return ⟨path, .ok (← ofText colors path text)⟩

/-- Checks every path; the results are in the order of the paths. -/
def ofPaths (read : Reader) (colors : Bool) (paths : List String) :
    Except Fault (List CheckedPath) :=
  paths.mapM (ofPath read colors)

/-- Writes results in order, renderings to one stream and read errors to the other, until a stream
refuses. -/
def writeResults (streams : Streams) (totals : CheckSummary) :
    List CheckedPath → Streams × Except CommandError CheckSummary
  | [] => (streams, .ok totals)
  | c :: cs =>
    match c.outcome with
    | .ok checked =>
      match streams.out.write checked.rendered with
      | (out, true) => writeResults { streams with out } (totals.add c.outcome) cs
      | (out, false) => ({ streams with out }, .error .output)
    | .error e =>
      match streams.err.writeAll ["error: ", e.message, "\n"] with
      | (err, true) => writeResults { streams with err } (totals.add c.outcome) cs
      | (err, false) => ({ streams with err }, .error .output)

/-- Writes the results and then the count of errors and warnings, which may be refused. -/
def write (streams : Streams) (colors : Bool) (cs : List CheckedPath) :
    Streams × Except CommandError CheckSummary :=
  match writeResults streams .empty cs with
  | (streams, .error e) => (streams, .error e)
  | (streams, .ok totals) =>
    let count := Rendering.summary colors totals.errors totals.warnings
    ({ streams with out := streams.out.writeAny count }, .ok totals)

end CheckReport

end BraceBalance
