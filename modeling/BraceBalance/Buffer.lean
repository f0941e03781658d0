import BraceBalance.Text
import BraceBalance.Word

/-!
# Buffers and cursors

A buffer holds a text and, after it, zeros up to the next multiple of 64 bytes, at least one, so
that the byte at the end of the text can be read too. The end of the text is a position and not a
byte value: a null byte inside the text reads the same as the zeros.
-/

namespace BraceBalance

/-- The least multiple of 64 above `n`. -/
def paddedSize (n : Nat) : Nat := (n + 64) / 64 * 64

theorem lt_paddedSize (n : Nat) : n < paddedSize n := by unfold paddedSize; omega

structure Buffer where
  /-- The text and its padding. -/
  padded : List UInt8
  /-- Length of the text; a longer text is scanned up to the greatest offset. -/
  length : Nat
  length_lt_size : length < padded.length

structure Cursor where
  /-- Offset of the byte to be read. -/
  pos : Nat
  /-- The buffer from `pos` on. -/
  ahead : List UInt8
  /-- Where the text ends. -/
  length : Nat

namespace Cursor

def atEnd (c : Cursor) : Bool := decide (c.length ≤ c.pos)

def current (c : Cursor) : Except Fault UInt8 :=
  match c.ahead with
  | b :: _ => .ok b
  | [] => .error .outOfBounds

def advance (c : Cursor) (n : Nat) : Except Fault Cursor := do
  let pos ← checkOffset (c.pos + n)
  return ⟨pos, c.ahead.drop n, c.length⟩

/-- How many bytes of the text are still ahead. -/
def remaining (c : Cursor) : Nat := c.length - c.pos

/-- The next `n` bytes with their offsets, after those in `seen` (latest first). -/
def collect (seen : List (UInt8 × Nat)) : Nat → Cursor → Except Fault (List (UInt8 × Nat))
  | 0, _ => .ok seen.reverse
  | n + 1, c => do
    let b ← c.current
    let next ← c.advance 1
    collect ((b, c.pos) :: seen) n next

/-- What the cursor reads on its way to the end of the text. -/
def rest (c : Cursor) : Except Fault (List (UInt8 × Nat)) := collect [] c.remaining c

theorem atEnd_iff {c : Cursor} : c.atEnd = true ↔ c.remaining = 0 := by
  rw [atEnd, decide_eq_true_eq, remaining, Nat.sub_eq_zero_iff_le]

theorem eq_of_advance {c next : Cursor} {n : Nat} (h : c.advance n = .ok next) :
    next = ⟨c.pos + n, c.ahead.drop n, c.length⟩ := by
  obtain ⟨pos, hpos, hc⟩ := exists_of_bind_eq_ok h
  rw [checkOffset] at hpos
  split at hpos
  · obtain rfl := Except.ok.inj hpos
    exact (Except.ok.inj hc).symm
  · cases hpos

theorem collect_eq_map (seen : List (UInt8 × Nat)) (n : Nat) (c : Cursor) :
    collect seen n c = (collect [] n c).map (seen.reverse ++ ·) := by
  induction n generalizing seen c with
  | zero => simp [collect, Except.map]
  | succ n ih =>
    rw [collect, collect]
    cases c.current with
    | error fault => rfl
    | ok b =>
      cases c.advance 1 with
      | error fault => rfl
      | ok next =>
        simp only [bind, Except.bind]
        rw [ih, ih [(b, c.pos)]]
        cases collect [] n next <;> simp [Except.map]

theorem rest_of_atEnd {c : Cursor} (h : c.atEnd = true) : c.rest = .ok [] := by
  rw [rest, atEnd_iff.mp h]
  rfl

/-- Before the end of the text a cursor reads the byte that it stands at, and goes on behind it. -/
theorem rest_of_not_atEnd {c : Cursor} (h : c.atEnd = false) :
    c.rest = do
      let b ← c.current
      let next ← c.advance 1
      let bytes ← next.rest
      return (b, c.pos) :: bytes := by
  have hr : c.remaining ≠ 0 := fun hz => Bool.false_ne_true (h.symm.trans (atEnd_iff.mpr hz))
  obtain ⟨n, hn⟩ := Nat.exists_eq_succ_of_ne_zero hr
  rw [rest, hn, collect]
  cases c.current with
  | error fault => rfl
  | ok b =>
    cases hnext : c.advance 1 with
    | error fault => rfl
    | ok next =>
      have hleft : next.remaining = n := by
        rw [eq_of_advance hnext]
        simp only [remaining] at hn ⊢
        omega
      simp only [bind, Except.bind]
      rw [collect_eq_map, rest, hleft]
      cases collect [] n next <;> simp [Except.map, pure, Except.pure]

/-- A cursor with enough bytes ahead reads exactly the rest of its text: no padding, no fault. -/
theorem rest_eq {c : Cursor} (hl : c.length ≤ maxOffset) (h : c.length ≤ c.pos + c.ahead.length) :
    c.rest = .ok ((c.ahead.take (c.length - c.pos)).zipIdx c.pos) := by
  induction hn : c.remaining generalizing c with
  | zero =>
    rw [rest_of_atEnd (atEnd_iff.mpr hn), ← remaining, hn]
    rfl
  | succ n ih =>
    have hend : c.atEnd = false := by
      rw [← Bool.not_eq_true, atEnd_iff, hn]
      exact Nat.succ_ne_zero n
    obtain ⟨pos, ahead, length⟩ := c
    simp only [remaining] at hn hl h
    cases ahead with
    | nil => simp only [List.length_nil] at h; omega
    | cons b ahead =>
      have hc : checkOffset (pos + 1) = .ok (pos + 1) := checkOffset_of_le (by omega)
      have hnext : (⟨pos + 1, ahead, length⟩ : Cursor).rest =
          .ok ((ahead.take (length - (pos + 1))).zipIdx (pos + 1)) := by
        rw [List.length_cons] at h
        refine ih hl ?_ ?_
        · simp only
          omega
        · simp only [remaining]
          omega
      rw [rest_of_not_atEnd hend]
      simp only [current, advance, hc, bind, Except.bind, pure, Except.pure, List.drop_succ_cons,
        List.drop_zero, hnext]
      rw [show length - pos = length - (pos + 1) + 1 by omega, List.take_succ_cons,
        List.zipIdx_cons]

end Cursor

namespace Buffer

def ofBytes (bytes : List UInt8) : Buffer where
  padded := bytes ++ List.replicate (paddedSize bytes.length - bytes.length) 0
  length := saturate bytes.length
  length_lt_size := by
    have := lt_paddedSize bytes.length
    simp only [List.length_append, List.length_replicate, saturate]
    omega

def ofText (s : String) : Buffer := ofBytes (Text.bytes s)

/-- The text's bytes, without the padding. -/
def text (b : Buffer) : List UInt8 := b.padded.take b.length

def isEmpty (b : Buffer) : Bool := b.length == 0

def cursor (b : Buffer) : Cursor := ⟨0, b.padded, b.length⟩

/-- A cursor at `offset`, or at the end of a shorter text. -/
def cursorAt (b : Buffer) (offset : Nat) : Except Fault Cursor :=
  b.cursor.advance (min offset b.length)

theorem length_ofBytes (bytes : List UInt8) (h : bytes.length ≤ maxOffset) :
    (ofBytes bytes).length = bytes.length := saturate_of_le h

theorem text_ofBytes (bytes : List UInt8) (h : bytes.length ≤ maxOffset) :
    (ofBytes bytes).text = bytes := by
  unfold text; rw [length_ofBytes bytes h]; simp [ofBytes]

/-- What a scan from `start` reads depends on the text alone. -/
theorem rest_cursorAt (b : Buffer) (hl : b.length ≤ maxOffset) (start : Nat) :
    (b.cursorAt start >>= Cursor.rest) =
      .ok ((b.text.drop (min start b.length)).zipIdx (min start b.length)) := by
  have hs : min start b.length ≤ b.length := Nat.min_le_right _ _
  have hb := b.length_lt_size
  have hc : checkOffset (0 + min start b.length) = .ok (min start b.length) := by
    rw [Nat.zero_add]; exact checkOffset_of_le (by omega)
  simp only [cursorAt, cursor, Cursor.advance, hc, bind, Except.bind, pure, Except.pure]
  rw [Cursor.rest_eq hl (by simp only [List.length_drop]; omega)]
  simp only [text, List.drop_take]

/-- What goes over a text from `start` on reads the rest of the text, and none of the padding. -/
theorem bind_rest_ofBytes {α : Type} {bytes : List UInt8} (h : bytes.length ≤ maxOffset)
    {start : Nat} (hs : start ≤ bytes.length) (k : List (UInt8 × Nat) → Except Fault α) :
    ((ofBytes bytes).cursorAt start >>= fun cursor => cursor.rest >>= k) =
      k ((bytes.drop start).zipIdx start) := by
  have hl := length_ofBytes bytes h
  have hr := rest_cursorAt (ofBytes bytes) (by omega) start
  rw [text_ofBytes bytes h, hl, Nat.min_eq_left hs] at hr
  rw [← bind_assoc, hr]
  rfl

end Buffer

end BraceBalance
