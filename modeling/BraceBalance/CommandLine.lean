import BraceBalance.CommandLine.Options
import BraceBalance.Report.Check
import BraceBalance.Report.Code
import BraceBalance.Report.Construct
import BraceBalance.Report.Spans

/-!
# The command line

A list of arguments names a command, and running it gives an exit status and what was written. The
exit status is 0 exactly when the command could do its work, however unbalanced the texts are.
-/

namespace BraceBalance

inductive Command where
  | check (options : CheckOptions)
  | find (options : FindOptions)
  | regions (path : String)
  | explain (code : String)
  | help
  | version
  | unknown (name : String)
  deriving DecidableEq, Repr

structure Outcome where
  status : Nat
  streams : Streams

namespace Command

def release : String := "0.1.0"

def usage : String := String.join <| List.map (· ++ "\n") [
  "Brace-balance checker",
  "",
  "Usage: brace <command> [options]",
  "",
  "Commands:",
  "  check [paths...]       Report brace depth per file (default: convex/game.ts)",
  "  find <path> <name>     Find where the body following <name> closes",
  "  regions <path>         Dump lexical region runs (debugging)",
  "  explain <code>         Explain a diagnostic code (e.g., B0001)",
  "  help                   Show this help message",
  "  version                Show version information",
  "",
  "Options:",
  "  --color=<mode>         auto (default), always or never",
  "  --no-parallel          check: scan files one at a time",
  "",
  "Environment:",
  "  RUST_LOG               Enable tracing, e.g. RUST_LOG=brace_lexer_core=debug",
  "  BRACE_LOG_TREE         With RUST_LOG, print spans as a tree",
  "",
  "Exit status is 0 when every file was read, even if braces are unbalanced."]

/-- Without arguments the default file is checked. -/
def parse : List String → Except UsageError Command
  | [] => check <$> CheckOptions.parse []
  | name :: args =>
    if name = "check" then check <$> CheckOptions.parse args
    else if name = "find" then find <$> FindOptions.parse args
    else if name = "regions" then
      match args with
      | [path] => .ok (regions path)
      | _ => .error .regionsArguments
    else if name = "explain" ∨ name = "--explain" then
      match args with
      | [code] => .ok (explain code)
      | _ => .error .explainArguments
    else if name = "help" ∨ name = "--help" ∨ name = "-h" then .ok help
    else if name = "version" ∨ name = "--version" ∨ name = "-V" then .ok version
    else .ok (unknown name)

/-- Ends a command that failed: the error goes to the error stream and the status is 1. -/
def fail (streams : Streams) (e : CommandError) : Outcome :=
  let advice := match e with
    | .usage _ => ["Run `brace help` for usage.", "\n"]
    | .read _ | .unknownCode _ | .output => []
  ⟨1, { streams with err := streams.err.writeAny (["error: ", e.message, "\n"] ++ advice) }⟩

/-- Ends a command that writes to one stream only. -/
def finish (streams : Streams) : Sink × Except CommandError Unit → Outcome
  | (out, .ok ()) => ⟨0, { streams with out }⟩
  | (out, .error e) => fail { streams with out } e

def run (read : Reader) (isTerminal : Bool) (streams : Streams) : Command → Except Fault Outcome
  | check options => do
    let colors := options.color.usesColors isTerminal
    match CheckReport.write streams colors (← CheckReport.ofPaths read colors options.paths) with
    | (streams, .ok totals) => return ⟨totals.exitStatus, streams⟩
    | (streams, .error e) => return fail streams e
  | find options => do
    let colors := options.color.usesColors isTerminal
    return finish streams
      (← ConstructReport.write read colors options.path options.name streams.out)
  | regions path => do return finish streams (← SpanReport.write read path streams.out)
  | explain code => return finish streams (CodeReport.write code streams.out)
  | help => return ⟨0, { streams with out := streams.out.writeAny [usage] }⟩
  | version =>
    return ⟨0, { streams with out := streams.out.writeAny ["brace ", release, "\n"] }⟩
  | unknown name =>
    return ⟨1, ⟨streams.out.writeAny [usage],
      streams.err.writeAny ["Unknown command: ", name, "\n", "\n"]⟩⟩

/-- The files that a command reads. -/
def paths : Command → List String
  | check options => options.paths
  | find options => [options.path]
  | regions path => [path]
  | explain _ | help | version | unknown _ => []

/-- The files that the program reads on its arguments. -/
def argumentPaths (args : List String) : List String :=
  match parse args with
  | .ok command => command.paths
  | .error _ => []

/-- Runs the program on its arguments. -/
def runArguments (read : Reader) (isTerminal : Bool) (streams : Streams) (args : List String) :
    Except Fault Outcome :=
  match parse args with
  | .ok command => command.run read isTerminal streams
  | .error e => return fail streams (.usage e)

end Command

end BraceBalance
