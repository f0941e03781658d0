import BraceBalance.Sink

/-!
# Sinks

However its pieces are cut, and whether or not the writer goes on after a refusal, a sink takes from
what is offered to it the bytes it has room for, and so always a prefix. Offering is an action of the
bytes on the sink, and every way of writing comes down to one offer.
-/

namespace BraceBalance.Sink

variable {s : Sink} {u v : List UInt8}

/-- Whether `n` bytes fit where there is room for so many, or where there is no limit. -/
def fits : Option Nat → Nat → Bool
  | none, _ => true
  | some room, n => decide (n ≤ room)

/-- The bytes that fit. -/
def firstBytes : Option Nat → List UInt8 → List UInt8
  | none, bytes => bytes
  | some room, bytes => bytes.take room

/-- The sink after `bytes` were offered to it. -/
def offer (s : Sink) (bytes : List UInt8) : Sink :=
  ⟨s.taken ++ firstBytes s.room bytes, s.room.map (· - bytes.length)⟩

@[simp] theorem fits_zero (room : Option Nat) : fits room 0 = true := by
  cases room <;> simp [fits]

theorem fits_add (room : Option Nat) (m n : Nat) :
    fits room (m + n) = (fits room m && fits (room.map (· - m)) n) := by
  cases room with
  | none => rfl
  | some room =>
    rw [Bool.eq_iff_iff, Bool.and_eq_true]
    simp only [fits, Option.map_some, decide_eq_true_eq]
    omega

theorem firstBytes_append (room : Option Nat) (u v : List UInt8) :
    firstBytes room (u ++ v) = firstBytes room u ++ firstBytes (room.map (· - u.length)) v := by
  cases room with
  | none => rfl
  | some room => exact List.take_append

theorem firstBytes_of_fits {room : Option Nat} (h : fits room u.length = true) :
    firstBytes room u = u := by
  cases room with
  | none => rfl
  | some room => exact List.take_of_length_le (of_decide_eq_true h)

theorem offer_nil (s : Sink) : s.offer [] = s := by
  obtain ⟨taken, room⟩ := s
  cases room <;> simp [offer, firstBytes]

theorem offer_append (s : Sink) (u v : List UInt8) : s.offer (u ++ v) = (s.offer u).offer v := by
  have ht : s.taken ++ (firstBytes s.room u ++ firstBytes (s.room.map (· - u.length)) v) =
      s.taken ++ firstBytes s.room u ++ firstBytes (s.room.map (· - u.length)) v :=
    Array.ext' (by simp)
  have hr : s.room.map (· - (u ++ v).length) = (s.room.map (· - u.length)).map (· - v.length) := by
    cases s.room <;> simp [Nat.sub_sub]
  simp only [offer, firstBytes_append, ht, hr]

/-- A full sink takes nothing more. -/
theorem offer_of_not_fits (h : fits s.room u.length = false) (v : List UInt8) :
    (s.offer u).offer v = s.offer u := by
  obtain ⟨taken, room⟩ := s
  cases room with
  | none => cases h
  | some room =>
    have hz : room - u.length = 0 := by
      simp only [fits, decide_eq_false_iff_not] at h
      omega
    simp [offer, hz, firstBytes]

/-- A fresh sink holds the first bytes of what it is offered. -/
theorem taken_offer_withRoom (room : Option Nat) (bytes : List UInt8) :
    ((withRoom room).offer bytes).taken.toList = firstBytes room bytes := by
  simp [offer, withRoom]

theorem write_eq (s : Sink) (piece : String) :
    s.write piece = (s.offer (Text.bytes piece), fits s.room (Text.bytes piece).length) := by
  obtain ⟨taken, room⟩ := s
  cases room with
  | none => rfl
  | some room =>
    by_cases hl : (Text.bytes piece).length ≤ room
    · simp [write, offer, firstBytes, fits, hl, List.take_of_length_le hl]
    · have hz : room - (Text.bytes piece).length = 0 := by omega
      simp [write, offer, firstBytes, fits, hl, hz]

/-- Stopping at the first refusal loses nothing: the sink is full then. -/
theorem writeAll_eq (s : Sink) (pieces : List String) :
    s.writeAll pieces =
      (s.offer (pieces.flatMap Text.bytes), fits s.room (pieces.flatMap Text.bytes).length) := by
  induction pieces generalizing s with
  | nil => simp [writeAll, offer_nil]
  | cons piece pieces ih =>
    rw [writeAll, write_eq, List.flatMap_cons, List.length_append, fits_add, offer_append]
    cases hf : fits s.room (Text.bytes piece).length with
    | true => exact ih (s.offer (Text.bytes piece))
    | false => rw [offer_of_not_fits hf, Bool.false_and]

theorem writeAny_append (s : Sink) (us vs : List String) :
    s.writeAny (us ++ vs) = (s.writeAny us).writeAny vs :=
  List.foldl_append

theorem writeAny_eq (s : Sink) (pieces : List String) :
    s.writeAny pieces = s.offer (pieces.flatMap Text.bytes) := by
  induction pieces generalizing s with
  | nil => rw [writeAny_nil, List.flatMap_nil, offer_nil]
  | cons piece pieces ih => rw [writeAny_cons, ih, write_eq, List.flatMap_cons, offer_append]

end BraceBalance.Sink
