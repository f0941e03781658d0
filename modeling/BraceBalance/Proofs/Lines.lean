import BraceBalance.Position

/-!
# Lines

A line table and a count of the text before an offset place every offset alike. Both come down to
one cut: the text before an offset ends in a stretch without newlines, and what stands before that
stretch is empty or ends with a newline. The lines a table knows to have begun at an offset are those
of the text before it, so the last of them starts where the cut is.
-/

namespace BraceBalance

variable {bytes : List UInt8}

/-- The offsets at which `b` stands, ascending. -/
def offsetsOf (b : UInt8) (bytes : List UInt8) : List Nat :=
  (List.range bytes.length).filter fun i => bytes[i]? == some b

@[simp] theorem offsetsOf_nil (b : UInt8) : offsetsOf b [] = [] := rfl

theorem mem_offsetsOf {b : UInt8} {i : Nat} : i ∈ offsetsOf b bytes ↔ bytes[i]? = some b := by
  rw [offsetsOf, List.mem_filter, List.mem_range, beq_iff_eq]
  constructor
  · rintro ⟨-, h⟩
    exact h
  · intro h
    exact ⟨(List.getElem?_eq_some_iff.mp h).1, h⟩

theorem lt_length_of_mem_offsetsOf {b : UInt8} {i : Nat} (h : i ∈ offsetsOf b bytes) :
    i < bytes.length :=
  (List.getElem?_eq_some_iff.mp (mem_offsetsOf.mp h)).1

theorem offsetsOf_ascending (b : UInt8) (bytes : List UInt8) :
    (offsetsOf b bytes).Pairwise (· < ·) :=
  List.pairwise_lt_range.filter _

theorem offsetsOf_append (b : UInt8) (u v : List UInt8) :
    offsetsOf b (u ++ v) = offsetsOf b u ++ (offsetsOf b v).map (u.length + ·) := by
  have hu : (List.range u.length).filter (fun i => (u ++ v)[i]? == some b) = offsetsOf b u := by
    refine List.filter_congr fun i hi => ?_
    rw [List.getElem?_append_left (List.mem_range.mp hi)]
  have hv : (fun i => (u ++ v)[i]? == some b) ∘ (u.length + ·) = fun i => v[i]? == some b := by
    funext i
    simp [List.getElem?_append_right]
  rw [offsetsOf, List.length_append, List.range_add, List.filter_append, hu, List.filter_map, hv]
  rfl

theorem offsetsOf_cons (b c : UInt8) (bytes : List UInt8) :
    offsetsOf b (c :: bytes) =
      (if c = b then [0] else []) ++ (offsetsOf b bytes).map (1 + ·) := by
  have hc : offsetsOf b [c] = if c = b then [0] else [] := by
    by_cases h : c = b <;> simp [offsetsOf, h]
  rw [← List.singleton_append, offsetsOf_append, hc, List.length_singleton]

theorem length_offsetsOf (b : UInt8) (bytes : List UInt8) :
    (offsetsOf b bytes).length = bytes.count b := by
  induction bytes with
  | nil => rfl
  | cons c bytes ih =>
    rw [offsetsOf_cons, List.length_append, List.length_map, ih, List.count_cons]
    by_cases h : c = b <;> simp [h, Nat.add_comm]

/-- Searching a text with its offsets finds the offsets of `b`, if all of them are admissible. -/
theorem filterMap_zipIdx {α : Type} (b : UInt8) (f : Nat → α) (admissible : Nat → Prop)
    [DecidablePred admissible] (bytes : List UInt8) (k : Nat)
    (h : ∀ i < bytes.length, admissible (k + i)) :
    ((bytes.zipIdx k).filterMap fun (c, i) => if c = b ∧ admissible i then some (f i) else none) =
      (offsetsOf b bytes).map fun i => f (k + i) := by
  induction bytes generalizing k with
  | nil => rfl
  | cons c bytes ih =>
    have hk : admissible k := h 0 (by simp)
    have hrest := ih (k + 1) fun i hi => by
      have := h (i + 1) (by simpa using hi)
      rwa [Nat.add_assoc, Nat.add_comm 1]
    rw [List.zipIdx_cons, List.filterMap_cons, hrest, offsetsOf_cons, List.map_append, List.map_map]
    by_cases hc : c = b <;> simp [hc, hk, Function.comp_def, Nat.add_assoc]

/-- The line that holds `offset` starts at `start`. -/
structure LineStartsAt (bytes : List UInt8) (offset start : Nat) : Prop where
  le : start ≤ offset
  after_newline : start = 0 ∨ bytes[start - 1]? = some Byte.newline
  no_newline : ∀ i, start ≤ i → i < offset → bytes[i]? ≠ some Byte.newline

/-- The line of `offset` counts the newlines before it, and its column counts from where that line
starts. -/
structure Position.Places (p : Position) (bytes : List UInt8) (offset : Nat) : Prop where
  line : p.line = 1 + (bytes.take offset).count Byte.newline
  column : ∃ start, LineStartsAt bytes offset start ∧ p.column = offset - start + 1

/-- A text is cut where its last line starts: `front` is empty or ends with a newline, and no newline
stands in `tail`. -/
structure LastLine (front tail : List UInt8) : Prop where
  front_end : front = [] ∨ ∃ before, front = before ++ [Byte.newline]
  not_mem_tail : Byte.newline ∉ tail

theorem exists_lastLine (bytes : List UInt8) :
    ∃ front tail, bytes = front ++ tail ∧ LastLine front tail := by
  refine ⟨(bytes.reverse.dropWhile (· != Byte.newline)).reverse,
    (bytes.reverse.takeWhile (· != Byte.newline)).reverse, ?_, ?_, ?_⟩
  · rw [← List.reverse_append, List.takeWhile_append_dropWhile, List.reverse_reverse]
  · have hd := List.head?_dropWhile_not (· != Byte.newline) bytes.reverse
    cases hdrop : bytes.reverse.dropWhile (· != Byte.newline) with
    | nil => exact .inl rfl
    | cons b rest =>
      rw [hdrop] at hd
      obtain rfl : b = Byte.newline := by simpa using hd
      exact .inr ⟨rest.reverse, List.reverse_cons⟩
  · have ht := List.all_takeWhile (p := (· != Byte.newline)) (l := bytes.reverse)
    intro hm
    have := List.all_eq_true.mp ht _ (List.mem_reverse.mp hm)
    simp at this

namespace LastLine

variable {front tail : List UInt8}

theorem offsetsOf_eq (h : LastLine front tail) :
    offsetsOf Byte.newline (front ++ tail) = offsetsOf Byte.newline front := by
  have ht : offsetsOf Byte.newline tail = [] := by
    rw [List.eq_nil_iff_forall_not_mem]
    intro i hi
    exact h.not_mem_tail (List.mem_of_getElem? (mem_offsetsOf.mp hi))
  rw [offsetsOf_append, ht, List.map_nil, List.append_nil]

/-- Read backwards, a text meets no newline until its last line is read. -/
theorem takeWhile_reverse (h : LastLine front tail) :
    (front ++ tail).reverse.takeWhile (· != Byte.newline) = tail.reverse := by
  have ht : ∀ b ∈ tail.reverse, (b != Byte.newline) = true := by
    intro b hb
    rw [bne_iff_ne]
    rintro rfl
    exact h.not_mem_tail (List.mem_reverse.mp hb)
  rw [List.reverse_append, List.takeWhile_append_of_pos ht]
  obtain rfl | ⟨before, rfl⟩ := h.front_end <;> simp

/-- The line at the end of a text starts at the cut, whatever follows the text. -/
theorem lineStartsAt (h : LastLine front tail) (rest : List UInt8) :
    LineStartsAt (front ++ tail ++ rest) (front ++ tail).length front.length where
  le := by
    rw [List.length_append]
    omega
  after_newline := by
    obtain rfl | ⟨before, rfl⟩ := h.front_end
    · exact .inl rfl
    · exact .inr (by simp)
  no_newline := by
    intro i hi hlt hn
    rw [List.getElem?_append_left hlt, List.getElem?_append_right hi] at hn
    exact h.not_mem_tail (List.mem_of_getElem? hn)

theorem places (h : LastLine front tail) (rest : List UInt8) :
    (⟨(front ++ tail).count Byte.newline + 1, tail.length + 1⟩ : Position).Places
      (front ++ tail ++ rest) (front ++ tail).length where
  line := by rw [List.take_left, Nat.add_comm]
  column := ⟨front.length, h.lineStartsAt rest, by rw [List.length_append, Nat.add_sub_cancel_left]⟩

end LastLine

/-- Every offset of a text cuts it after some part of a line. -/
theorem exists_cut {offset : Nat} (h : offset ≤ bytes.length) :
    ∃ front tail rest, bytes = front ++ tail ++ rest ∧ offset = (front ++ tail).length ∧
      LastLine front tail := by
  obtain ⟨front, tail, hft, hl⟩ := exists_lastLine (bytes.take offset)
  refine ⟨front, tail, bytes.drop offset, ?_, ?_, hl⟩
  · rw [← hft, List.take_append_drop]
  · rw [← hft, List.length_take, Nat.min_eq_left h]

namespace LineTable

/-- Where the lines of a text start. -/
def startsOf (bytes : List UInt8) : List Nat := 0 :: (offsetsOf Byte.newline bytes).map (· + 1)

theorem starts_ofBytes (h : bytes.length ≤ maxOffset) :
    (ofBytes bytes).starts = startsOf bytes := by
  have hn : ∀ i < bytes.length, 0 + i + 1 ≤ maxOffset := fun i hi => by omega
  have hf := filterMap_zipIdx Byte.newline (· + 1) (fun i => i + 1 ≤ maxOffset) bytes 0 hn
  simp only [Nat.zero_add] at hf
  rw [ofBytes, startsOf, hf]

theorem length_ofBytes (h : bytes.length ≤ maxOffset) : (ofBytes bytes).length = bytes.length :=
  saturate_of_le h

theorem length_startsOf (bytes : List UInt8) :
    (startsOf bytes).length = bytes.count Byte.newline + 1 := by
  rw [startsOf, List.length_cons, List.length_map, length_offsetsOf]

theorem startsOf_ascending (bytes : List UInt8) : (startsOf bytes).Pairwise (· < ·) := by
  rw [startsOf, List.pairwise_cons, List.pairwise_map]
  refine ⟨fun i hi => ?_, (offsetsOf_ascending _ _).imp Nat.succ_lt_succ⟩
  obtain ⟨j, -, rfl⟩ := List.mem_map.mp hi
  exact Nat.succ_pos j

theorem le_length_of_mem_startsOf {i : Nat} (h : i ∈ startsOf bytes) : i ≤ bytes.length := by
  rw [startsOf, List.mem_cons, List.mem_map] at h
  obtain rfl | ⟨j, hj, rfl⟩ := h
  · exact Nat.zero_le _
  · exact lt_length_of_mem_offsetsOf hj

theorem startsOf_append (u v : List UInt8) :
    startsOf (u ++ v) = startsOf u ++ (offsetsOf Byte.newline v).map (u.length + · + 1) := by
  rw [startsOf, startsOf, offsetsOf_append, List.map_append, List.map_map, List.cons_append]
  rfl

/-- The lines begun up to an offset are those of the text before it. -/
theorem takeWhile_startsOf (u v : List UInt8) :
    (startsOf (u ++ v)).takeWhile (· ≤ u.length) = startsOf u := by
  have hu : ∀ i ∈ startsOf u, decide (i ≤ u.length) = true :=
    fun i hi => decide_eq_true (le_length_of_mem_startsOf hi)
  rw [startsOf_append, List.takeWhile_append_of_pos hu]
  cases offsetsOf Byte.newline v with
  | nil => simp
  | cons i rest =>
    have hi : ¬ u.length + i + 1 ≤ u.length := by omega
    simp [hi]

/-- The last line of a text starts where the text is cut. -/
theorem getLast?_startsOf {front tail : List UInt8} (h : LastLine front tail) :
    (startsOf (front ++ tail)).getLast? = some front.length := by
  rw [startsOf, h.offsetsOf_eq]
  obtain rfl | ⟨before, rfl⟩ := h.front_end
  · rfl
  · have hn : offsetsOf Byte.newline [Byte.newline] = [0] := rfl
    rw [offsetsOf_append, hn, List.map_append, ← List.cons_append, List.map_singleton,
      List.map_singleton, List.getLast?_concat]
    simp

end LineTable

namespace Position

/-- The direct way: the place of the end of `front ++ tail` in a longer text. -/
theorem find_of_cut {front tail : List UInt8} (h : LastLine front tail) (rest : List UInt8) :
    find (front ++ tail ++ rest) (front ++ tail).length =
      some ⟨saturate ((front ++ tail).count Byte.newline + 1), saturate (tail.length + 1)⟩ := by
  rw [find, if_pos (List.prefix_append _ _).length_le]
  simp only [List.take_left, h.takeWhile_reverse, List.length_reverse]

theorem find_of_lastLine {front tail : List UInt8} (h : LastLine front tail)
    (hl : (front ++ tail).length < maxOffset) (rest : List UInt8) :
    find (front ++ tail ++ rest) (front ++ tail).length =
      some ⟨(front ++ tail).count Byte.newline + 1, tail.length + 1⟩ := by
  have hc : (front ++ tail).count Byte.newline ≤ (front ++ tail).length := List.count_le_length
  have htail : tail.length ≤ (front ++ tail).length := (List.suffix_append front tail).length_le
  rw [find_of_cut h, saturate_of_le (by omega), saturate_of_le (by omega)]

theorem find_eq_none_iff {offset : Nat} : find bytes offset = none ↔ bytes.length < offset := by
  rw [find]
  split <;> simp <;> omega

end Position

namespace LineTable

/-- The way through the table counts the same, and does not stop at the greatest column. -/
theorem position_of_cut {front tail : List UInt8} (h : LastLine front tail) (rest : List UInt8)
    (hl : (front ++ tail ++ rest).length ≤ maxOffset) :
    (ofBytes (front ++ tail ++ rest)).position (front ++ tail).length =
      (checkOffset (tail.length + 1)).map fun column =>
        some ⟨saturate ((front ++ tail).count Byte.newline + 1), column⟩ := by
  have hcolumn : (front ++ tail).length - front.length + 1 = tail.length + 1 := by
    rw [List.length_append]
    omega
  rw [position, length_ofBytes hl, if_neg (Nat.not_lt.mpr (List.prefix_append _ _).length_le)]
  simp only [starts_ofBytes hl, takeWhile_startsOf, getLast?_startsOf h, length_startsOf, hcolumn]
  rfl

/-- The way through the table leads to the same place. -/
theorem position_of_lastLine {front tail : List UInt8} (h : LastLine front tail)
    (rest : List UInt8) (hl : (front ++ tail ++ rest).length ≤ maxOffset)
    (ht : (front ++ tail).length < maxOffset) :
    (ofBytes (front ++ tail ++ rest)).position (front ++ tail).length =
      .ok (some ⟨(front ++ tail).count Byte.newline + 1, tail.length + 1⟩) := by
  have hc : (front ++ tail).count Byte.newline ≤ (front ++ tail).length := List.count_le_length
  have htail : tail.length ≤ (front ++ tail).length := (List.suffix_append front tail).length_le
  rw [position_of_cut h rest hl, checkOffset_of_le (by omega), saturate_of_le (by omega)]
  rfl

theorem position_eq_none {offset : Nat} (hl : bytes.length ≤ maxOffset)
    (h : bytes.length < offset) : (ofBytes bytes).position offset = .ok none := by
  rw [position, length_ofBytes hl, if_pos h]
  rfl

/-- The table answers every lookup as the direct way does. -/
theorem position_ofBytes (h : bytes.length < maxOffset) (offset : Nat) :
    (ofBytes bytes).position offset = .ok (Position.find bytes offset) := by
  rcases Nat.lt_or_ge bytes.length offset with hlt | hle
  · rw [position_eq_none (by omega) hlt, Position.find_eq_none_iff.mpr hlt]
  · obtain ⟨front, tail, rest, rfl, rfl, hc⟩ := exists_cut hle
    rw [position_of_lastLine hc rest (by omega) (by omega), Position.find_of_lastLine hc (by omega)]

section

variable {k start : Nat}

theorem lineStart_succ (h : bytes.length ≤ maxOffset) (k : Nat) :
    (ofBytes bytes).lineStart (k + 1) = (startsOf bytes)[k]? := by
  rw [lineStart, starts_ofBytes h]

/-- The number of a line past the last that can be counted on. -/
theorem lineRange_past (h : bytes.length ≤ maxOffset) (hk : (startsOf bytes)[k]? = some start)
    (hmax : maxOffset < k + 2) : (ofBytes bytes).lineRange (k + 1) = .error .overflow := by
  rw [lineRange, lineStart_succ h, hk, checkOffset, if_neg (Nat.not_le.mpr hmax)]
  rfl

end

end LineTable

theorem Position.places_of_find (h : bytes.length < maxOffset) {offset : Nat} {p : Position}
    (hp : find bytes offset = some p) : p.Places bytes offset := by
  have hle : offset ≤ bytes.length := by
    refine Nat.le_of_not_lt fun hlt => ?_
    rw [find_eq_none_iff.mpr hlt] at hp
    cases hp
  obtain ⟨front, tail, rest, rfl, rfl, hc⟩ := exists_cut hle
  rw [find_of_lastLine hc (by omega)] at hp
  obtain rfl := Option.some.inj hp
  exact hc.places rest

/-- Through the table or by counting, every offset gets the same place: there is none beyond the end
of the text, and else the line counts newlines and the column counts bytes from the line's start. -/
theorem LineTable.position_eq_find (bytes : List UInt8) (h : bytes.length < maxOffset)
    (offset : Nat) :
    (ofBytes bytes).starts.Pairwise (· < ·) ∧
      (ofBytes bytes).position offset = .ok (Position.find bytes offset) ∧
      (Position.find bytes offset = none ↔ bytes.length < offset) ∧
      ∀ p, Position.find bytes offset = some p → p.Places bytes offset := by
  have hs : (ofBytes bytes).starts.Pairwise (· < ·) := by
    rw [starts_ofBytes (by omega)]
    exact startsOf_ascending bytes
  exact ⟨hs, position_ofBytes h offset, Position.find_eq_none_iff,
    fun p hp => Position.places_of_find h hp⟩

/-- A blank line has one place, which its newline takes. -/
theorem LineTable.position_in_blank_line :
    (ofBytes [0x61, Byte.newline, Byte.newline, 0x62]).position 2 = .ok (some ⟨2, 1⟩) ∧
      (⟨2, 1⟩ : Position).Places [0x61, Byte.newline, Byte.newline, 0x62] 2 := by
  obtain ⟨-, hp, -, hplaces⟩ :=
    position_eq_find [0x61, Byte.newline, Byte.newline, 0x62] (by decide) 2
  exact ⟨hp, hplaces _ rfl⟩

end BraceBalance
