import BraceBalance.Classification

/-!
# Region spans

A text is the concatenation of its spans: stretches of bytes in one region. The slash that opens a
comment was labelled as code before the comment was known, so a new comment's span takes it back
from the span before.
-/

namespace BraceBalance

structure Span where
  region : Region
  start : Nat
  /-- The offset after the last byte. -/
  stop : Nat
  deriving DecidableEq, Repr

namespace Span

/-- Gives up the last byte, and with it the span if nothing is left; `earlier` are the spans before,
latest first. -/
def giveBack (last : Span) (earlier : List Span) : Except Fault (List Span) := do
  let stop ← offsetBefore last.stop
  return if last.start = stop then earlier else { last with stop } :: earlier

/-- The spans so far, latest first, with one more byte. -/
def extend : List Span → Label → Except Fault (List Span)
  | [], label => do
    let stop ← checkOffset (label.offset + 1)
    return [⟨label.region, label.offset, stop⟩]
  | last :: earlier, label => do
    let stop ← checkOffset (label.offset + 1)
    if last.region = label.region then return { last with stop } :: earlier
    else if label.region.isComment then
      let start ← offsetBefore label.offset
      return ⟨label.region, start, stop⟩ :: (← last.giveBack earlier)
    else return ⟨label.region, label.offset, stop⟩ :: last :: earlier

def ofLabels (labels : List Label) : Except Fault (List Span) :=
  List.reverse <$> labels.foldlM extend []

end Span

/-- The spans of a whole text. -/
def Buffer.spans (b : Buffer) : Except Fault (List Span) := do
  Span.ofLabels (← b.classify 0)

end BraceBalance
