import BraceBalance.Text

/-!
# Sinks

Output is written piece by piece into a sink that may have room for only so many bytes. A piece that
does not fit fills the sink and is refused; from then on every piece but the empty one is refused.
-/

namespace BraceBalance

structure Sink where
  taken : Array UInt8
  /-- Bytes there is still room for; none if there is no limit. -/
  room : Option Nat

namespace Sink

def withRoom (room : Option Nat) : Sink := ⟨#[], room⟩

/-- Writes one piece, and whether the sink took all of it. -/
def write (s : Sink) (piece : String) : Sink × Bool :=
  let bytes := Text.bytes piece
  match s.room with
  | none => (⟨s.taken ++ bytes, none⟩, true)
  | some room =>
    if bytes.length ≤ room then (⟨s.taken ++ bytes, some (room - bytes.length)⟩, true)
    else (⟨s.taken ++ bytes.take room, some 0⟩, false)

/-- Writes the pieces in order until one is refused. -/
def writeAll (s : Sink) : List String → Sink × Bool
  | [] => (s, true)
  | piece :: pieces =>
    match s.write piece with
    | (s, true) => s.writeAll pieces
    | (s, false) => (s, false)

/-- Writes the pieces in order and goes on after a refusal: a reader that went away is no failure of
the writer. -/
def writeAny (s : Sink) (pieces : List String) : Sink :=
  pieces.foldl (fun s piece => (s.write piece).1) s

@[simp] theorem writeAny_nil (s : Sink) : s.writeAny [] = s := rfl

@[simp] theorem writeAny_cons (s : Sink) (piece : String) (pieces : List String) :
    s.writeAny (piece :: pieces) = (s.write piece).1.writeAny pieces := rfl

end Sink

/-- Both output streams of a command. -/
structure Streams where
  out : Sink
  err : Sink

end BraceBalance
