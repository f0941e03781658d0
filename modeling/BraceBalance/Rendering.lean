import BraceBalance.Diagnostic
import BraceBalance.Source

/-!
# Rendering diagnostics

A diagnostic is shown as a header with its place, code and message, the source line with a caret
under the offending byte, and its notes. What is rendered is a list of pieces, each of them one
write. Colours wrap pieces in escape sequences and change nothing else.
-/

namespace BraceBalance

inductive ColorMode where
  /-- Colours on a terminal only. -/
  | auto
  | always
  | never
  deriving DecidableEq, Repr

namespace ColorMode

def usesColors (mode : ColorMode) (isTerminal : Bool) : Bool :=
  match mode with
  | auto => isTerminal
  | always => true
  | never => false

def parse? (s : String) : Option ColorMode :=
  if s = "auto" then some auto
  else if s = "always" then some always
  else if s = "never" then some never
  else none

end ColorMode

namespace Color

def bold : String := "\x1b[1m"
def red : String := "\x1b[1;31m"
def yellow : String := "\x1b[1;33m"
def blue : String := "\x1b[1;34m"
def reset : String := "\x1b[0m"

/-- `text` in a colour, or as it is. -/
def paint (colors : Bool) (color text : String) : List String :=
  if colors then [color, text, reset] else [text]

end Color

def Severity.color : Severity → String
  | error => Color.red
  | warning => Color.yellow

namespace Rendering

open Color

/-- White space that puts the caret under the byte in `column`. Tabs stay tabs, and every other
character takes one place however many bytes it has. -/
def caretPadding (line : String) (column : Nat) : String :=
  String.ofList <| (((Text.bytes line).take (column - 1)).filter (!Byte.isContinuation ·)).map
    fun b => if b = Byte.tab then '\t' else ' '

/-- The margin left of a source line: `label` right-aligned in `width` places, and a bar. -/
def gutter (colors : Bool) (label : String) (width : Nat) : List String :=
  let blanks := String.ofList (List.replicate (width - label.length) ' ')
  "  " :: paint colors blue (blanks ++ label ++ " |")

def snippet (colors : Bool) (place : Position) (line : String) (severity : Severity) :
    List String :=
  let number := toString place.line
  gutter colors number number.length ++ (if line.isEmpty then ["\n"] else [" ", line, "\n"]) ++
    gutter colors "" number.length ++ [" ", caretPadding line place.column] ++
    paint colors severity.color "^" ++ ["\n"]

def header (colors : Bool) (path : String) (place : Option Position) (d : Diagnostic) :
    List String :=
  let location := match place with
    | some p => path ++ ":" ++ p.text ++ ":"
    | none => path ++ ":"
  paint colors bold location ++ [" "] ++ paint colors d.severity.color d.severity.name ++
    paint colors bold ("[" ++ d.code.name ++ "]") ++ [": ", d.message, "\n"]

def note (colors : Bool) (text : String) : List String :=
  "  = " :: paint colors bold "note" ++ [": ", text, "\n"]

/-- A diagnostic at a spot. The snippet is left out where the line cannot be shown. -/
def atSpot (colors : Bool) (path : String) (spot : Option (Position × Option String))
    (d : Diagnostic) : List String :=
  header colors path (spot.map Prod.fst) d ++
    (match spot with
      | some (place, some line) => snippet colors place line d.severity
      | some (_, none) | none => []) ++
    d.notes.flatMap (note colors)

def diagnostic (colors : Bool) (source : Source) (d : Diagnostic) : Except Fault (List String) := do
  return atSpot colors source.path (← source.spot d.offset) d

def diagnostics (colors : Bool) (source : Source) (ds : List Diagnostic) :
    Except Fault (List String) :=
  List.flatten <$> ds.mapM (diagnostic colors source)

/-- A plain line, such as the result for one file. -/
def line (text : String) : List String := [text, "\n"]

/-- A count with its noun, in the plural unless the count is one. -/
def counted (n : Nat) (noun : String) : String :=
  toString n ++ " " ++ noun ++ (if n = 1 then "" else "s")

/-- The closing count of errors and warnings; nothing when there are none. -/
def summary (colors : Bool) (errors warnings : Nat) : List String :=
  if 0 < errors then
    paint colors red "error" ++
      [": ", counted errors "error",
        if 0 < warnings then " and " ++ counted warnings "warning" else "", " found\n"]
  else if 0 < warnings then
    paint colors yellow "warning" ++ [": ", counted warnings "warning", " found\n"]
  else []

end Rendering

end BraceBalance
