import BraceBalance.Stretch
import BraceBalance.Proofs.Lines

/-!
# Stretches and the text they stand for

Placing an offset stretch by stretch and placing it in the text written out come to the same. Both
count from the place reached so far, so the text passed is what the induction carries along.
-/

namespace BraceBalance

namespace Stretch

theorem foldl_count (ss : List Stretch) (n : Nat) :
    ss.foldl (fun n s => n + s.count) n = n + (expand ss).length := by
  induction ss generalizing n with
  | nil => rfl
  | cons s ss ih => rw [List.foldl_cons, ih, expand_cons, List.length_append, length_bytes, Nat.add_assoc]

theorem totalLength_eq (ss : List Stretch) : totalLength ss = (expand ss).length := by
  rw [totalLength, foldl_count, Nat.zero_add]

end Stretch

namespace Position

/-- The place behind a text, counted without bound. -/
def behind (bytes : List UInt8) : Position :=
  ⟨bytes.count Byte.newline + 1, (bytes.reverse.takeWhile (· != Byte.newline)).length + 1⟩

theorem find_eq_behind (bytes : List UInt8) (offset : Nat) :
    find bytes offset =
      if offset ≤ bytes.length then some (behind (bytes.take offset)).saturated else none := rfl

theorem behind_append_replicate (u : List UInt8) (b : UInt8) (n : Nat) :
    behind (u ++ List.replicate n b) = (behind u).pass b n := by
  rw [behind, pass, List.count_append, List.reverse_append, List.reverse_replicate]
  by_cases hb : b = Byte.newline
  · subst hb
    cases n with
    | zero => simp [behind]
    | succ n =>
      rw [List.replicate_succ, List.cons_append]
      simp [behind, Nat.add_right_comm]
  · have hc : (List.replicate n b).count Byte.newline = 0 := by
      rw [List.count_eq_zero]
      exact fun h => hb (List.eq_of_mem_replicate h).symm
    have ht : ∀ c ∈ List.replicate n b, (c != Byte.newline) = true := by
      intro c hm
      rw [List.eq_of_mem_replicate hm, bne_iff_ne]
      exact hb
    rw [hc, List.takeWhile_append_of_pos ht, if_pos hb]
    simp [behind, Nat.add_right_comm, Nat.add_comm n]

theorem findFrom_behind (u : List UInt8) (ss : List Stretch) (offset : Nat) :
    findFrom (behind u) ss offset =
      if offset ≤ (Stretch.expand ss).length then
        some (behind (u ++ (Stretch.expand ss).take offset)).saturated
      else none := by
  induction ss generalizing u offset with
  | nil => cases offset <;> simp [findFrom]
  | cons s ss ih =>
    rw [findFrom, Stretch.expand_cons, List.length_append, Stretch.length_bytes]
    by_cases hle : offset ≤ s.count
    · rw [if_pos hle, if_pos (by omega), List.take_append_of_le_length (by simpa using hle),
        Stretch.bytes, List.take_replicate, Nat.min_eq_left hle, behind_append_replicate]
    · have hiff : offset - s.count ≤ (Stretch.expand ss).length ↔
          offset ≤ s.count + (Stretch.expand ss).length := by omega
      have hs : s.bytes.take offset = s.bytes :=
        List.take_of_length_le (by rw [Stretch.length_bytes]; omega)
      rw [if_neg hle, ← behind_append_replicate, ih, List.take_append, Stretch.length_bytes, hs,
        ← List.append_assoc]
      simp only [hiff]
      rfl

/-- Counting stretch by stretch is counting in the text written out. -/
theorem findInStretches_eq (ss : List Stretch) (offset : Nat) :
    findInStretches ss offset = find (Stretch.expand ss) offset := by
  rw [find_eq_behind]
  exact findFrom_behind [] ss offset

end Position

namespace LineTable

/-- The lines that start in a text that stands at `offset`. -/
def startsFrom (bytes : List UInt8) (offset : Nat) : List Nat :=
  (bytes.zipIdx offset).filterMap fun (b, i) =>
    if b = Byte.newline ∧ i + 1 ≤ maxOffset then some (i + 1) else none

theorem startsFrom_append (u v : List UInt8) (offset : Nat) :
    startsFrom (u ++ v) offset = startsFrom u offset ++ startsFrom v (offset + u.length) := by
  rw [startsFrom, List.zipIdx_append, List.filterMap_append]
  rfl

theorem startsFrom_newlines (n offset : Nat) :
    startsFrom (List.replicate n Byte.newline) offset =
      (List.range' (offset + 1) n).filter (· ≤ maxOffset) := by
  induction n generalizing offset with
  | zero => rfl
  | succ n ih =>
    rw [List.replicate_succ, startsFrom, List.zipIdx_cons, List.filterMap_cons, List.range'_succ,
      List.filter_cons, ← ih (offset + 1)]
    by_cases hle : offset + 1 ≤ maxOffset <;> simp [hle, startsFrom]

theorem startsFrom_replicate_of_ne {b : UInt8} (hb : b ≠ Byte.newline) (n offset : Nat) :
    startsFrom (List.replicate n b) offset = [] := by
  rw [startsFrom, List.filterMap_eq_nil_iff]
  intro ⟨c, i⟩ hm
  have hc : c = b := List.eq_of_mem_replicate (List.fst_mem_of_mem_zipIdx hm)
  exact if_neg fun h => hb (hc.symm.trans h.1)

theorem collectStarts_eq (seen : List Nat) (offset : Nat) (ss : List Stretch) :
    collectStarts seen offset ss = seen.reverse ++ startsFrom (Stretch.expand ss) offset := by
  induction ss generalizing seen offset with
  | nil => simp [collectStarts, startsFrom]
  | cons s ss ih =>
    rw [collectStarts, Stretch.expand_cons, startsFrom_append, Stretch.length_bytes, Stretch.bytes]
    by_cases hb : s.byte = Byte.newline
    · rw [if_pos hb, ih, hb, startsFrom_newlines, List.reverse_append, List.reverse_reverse,
        List.append_assoc]
    · rw [if_neg hb, ih, startsFrom_replicate_of_ne hb, List.nil_append]

/-- The table of the stretches is the table of the text written out. -/
theorem ofStretches_eq (ss : List Stretch) : ofStretches ss = ofBytes (Stretch.expand ss) := by
  rw [ofStretches, ofBytes, collectStarts_eq, Stretch.totalLength_eq]
  rfl

end LineTable

end BraceBalance
