import Mathlib.Logic.ExistsUnique
import BraceBalance.Proofs.Lines

/-!
# Line ranges

A line table numbers the pieces that the newlines of a text leave between them. Around each piece the
text is cut in three, and the cut tells all that the table knows of the line: where it starts and ends,
and the place of every offset on it. So places and offsets correspond one to one, and the order of
places is that of offsets.
-/

namespace BraceBalance

/-- A list is cut around one of the pieces that its elements `x` leave between them. -/
structure CutAround {α : Type} (x : α) (front piece rest : List α) : Prop where
  front_end : front = [] ∨ ∃ before, front = before ++ [x]
  not_mem : x ∉ piece
  rest_start : rest = [] ∨ ∃ after, rest = x :: after

namespace CutAround

variable {α : Type} {x : α} {front piece rest : List α}

theorem start (h : CutAround x [] piece rest) {y : α} (hy : x ≠ y) :
    CutAround x [] (y :: piece) rest where
  front_end := .inl rfl
  not_mem := by
    intro hm
    obtain heq | hm := List.mem_cons.mp hm
    · exact hy heq
    · exact h.not_mem hm
  rest_start := h.rest_start

/-- What stands before a piece may be longer by one, if some `x` or the new element closes it. -/
theorem cons (h : CutAround x front piece rest) {y : α} (hy : y = x ∨ front ≠ []) :
    CutAround x (y :: front) piece rest where
  front_end := by
    obtain rfl | ⟨before, rfl⟩ := h.front_end
    · obtain rfl | hne := hy
      · exact .inr ⟨[], rfl⟩
      · exact absurd rfl hne
    · exact .inr ⟨y :: before, rfl⟩
  not_mem := h.not_mem
  rest_start := h.rest_start

theorem front_eq_nil [DecidableEq α] (h : CutAround x front piece rest)
    (hc : front.count x = 0) : front = [] := by
  obtain hnil | ⟨before, rfl⟩ := h.front_end
  · exact hnil
  · simp at hc

end CutAround

section

variable {α : Type} [DecidableEq α]

theorem splitOn_cons (x y : α) (xs : List α) :
    (y :: xs).splitOn x =
      if y = x then [] :: xs.splitOn x else (xs.splitOn x).modifyHead (List.cons y) := by
  simp only [List.splitOn_eq_splitOnP, List.splitOnP_cons_eq_if_modifyHead, beq_iff_eq]

theorem length_splitOn (x : α) (xs : List α) : (xs.splitOn x).length = xs.count x + 1 := by
  induction xs with
  | nil => rfl
  | cons y xs ih =>
    rw [splitOn_cons, List.count_cons]
    by_cases hy : y = x
    · simp [hy, ih]
    · simp [hy, ih]

/-- The piece with number `i` stands behind `i` elements `x`. -/
theorem exists_cutAround (x : α) (xs : List α) {i : Nat} (hi : i < (xs.splitOn x).length) :
    ∃ front rest, xs = front ++ (xs.splitOn x)[i] ++ rest ∧
      CutAround x front (xs.splitOn x)[i] rest ∧ front.count x = i := by
  induction xs generalizing i with
  | nil =>
    obtain rfl : i = 0 := by simpa using hi
    exact ⟨[], [], rfl, ⟨.inl rfl, List.not_mem_nil, .inl rfl⟩, rfl⟩
  | cons y xs ih =>
    by_cases hy : y = x
    · subst hy
      simp only [splitOn_cons, if_true, List.length_cons] at hi ⊢
      cases i with
      | zero =>
        exact ⟨[], y :: xs, rfl, ⟨.inl rfl, List.not_mem_nil, .inr ⟨xs, rfl⟩⟩, rfl⟩
      | succ i =>
        obtain ⟨front, rest, hxs, hcut, hcount⟩ := ih (Nat.lt_of_succ_lt_succ hi)
        refine ⟨y :: front, rest, congrArg (y :: ·) hxs, hcut.cons (.inl rfl), ?_⟩
        rw [List.count_cons_self, hcount]
    · have hlength := hi
      simp only [splitOn_cons, if_neg hy, List.length_modifyHead] at hlength
      obtain ⟨front, rest, hxs, hcut, hcount⟩ := ih hlength
      simp only [splitOn_cons, if_neg hy, List.getElem_modifyHead]
      cases i with
      | zero =>
        obtain rfl := hcut.front_eq_nil hcount
        exact ⟨[], rest, congrArg (y :: ·) hxs, hcut.start (Ne.symm hy), rfl⟩
      | succ i =>
        have hne : front ≠ [] := by
          rintro rfl
          cases hcount
        refine ⟨y :: front, rest, congrArg (y :: ·) hxs, hcut.cons (.inr hne), ?_⟩
        rw [List.count_cons_of_ne hy, hcount]

/-- Every index of a list is on a piece, or right behind it. -/
theorem exists_cutAround_of_le (x : α) {xs : List α} {n : Nat} (h : n ≤ xs.length) :
    ∃ front piece rest j, xs = front ++ piece ++ rest ∧ CutAround x front piece rest ∧
      j ≤ piece.length ∧ n = front.length + j := by
  induction xs generalizing n with
  | nil =>
    exact ⟨[], [], [], 0, rfl, ⟨.inl rfl, List.not_mem_nil, .inl rfl⟩, Nat.le_refl _,
      Nat.le_zero.mp h⟩
  | cons y xs ih =>
    cases n with
    | zero =>
      obtain ⟨front, piece, rest, j, rfl, hcut, -, hj⟩ := ih (Nat.zero_le _)
      obtain rfl : front = [] := List.length_eq_zero_iff.mp (by omega)
      by_cases hy : y = x
      · subst hy
        exact ⟨[], [], _, 0, rfl, ⟨.inl rfl, List.not_mem_nil, .inr ⟨_, rfl⟩⟩, Nat.le_refl _, rfl⟩
      · exact ⟨[], y :: piece, rest, 0, rfl, hcut.start (Ne.symm hy), Nat.zero_le _, rfl⟩
    | succ n =>
      obtain ⟨front, piece, rest, j, rfl, hcut, hj, rfl⟩ := ih (Nat.le_of_succ_le_succ h)
      by_cases hy : y = x ∨ front ≠ []
      · refine ⟨y :: front, piece, rest, j, rfl, hcut.cons hy, hj, ?_⟩
        rw [List.length_cons]
        omega
      · obtain ⟨hne, rfl⟩ : y ≠ x ∧ front = [] := by simpa using hy
        refine ⟨[], y :: piece, rest, j + 1, rfl, hcut.start (Ne.symm hne), ?_, Nat.add_assoc _ _ _⟩
        rw [List.length_cons]
        omega

end

/-- A text cut around one of its lines. -/
abbrev LineCut := CutAround Byte.newline

namespace CutAround

variable {front line rest : List UInt8}

theorem lastLine (h : LineCut front line rest) : LastLine front line := ⟨h.front_end, h.not_mem⟩

theorem lastLine_take (h : LineCut front line rest) (j : Nat) : LastLine front (line.take j) :=
  ⟨h.front_end, fun hm => h.not_mem (List.mem_of_mem_take hm)⟩

theorem count_line (h : LineCut front line rest) : line.count Byte.newline = 0 :=
  List.count_eq_zero.mpr h.not_mem

end CutAround

namespace LineTable

variable {bytes front line rest : List UInt8}

theorem length_startsOf_of_cut (h : LineCut front line rest) :
    (startsOf (front ++ line)).length = front.count Byte.newline + 1 := by
  rw [length_startsOf, List.count_append, h.count_line]

theorem getElem?_startsOf_of_cut (h : LineCut front line rest) :
    (startsOf (front ++ line ++ rest))[front.count Byte.newline]? = some front.length := by
  have hlast := getLast?_startsOf h.lastLine
  have hlength := length_startsOf_of_cut h
  rw [List.getLast?_eq_getElem?, hlength] at hlast
  rw [startsOf_append, List.getElem?_append_left (by omega)]
  exact hlast

theorem getElem?_startsOf_succ_of_cut (h : LineCut front line rest) :
    (startsOf (front ++ line ++ rest))[front.count Byte.newline + 1]? =
      if rest = [] then none else some ((front ++ line).length + 1) := by
  have hlength := length_startsOf_of_cut h
  rw [startsOf_append, List.getElem?_append_right (by omega), hlength, Nat.sub_self]
  obtain rfl | ⟨after, rfl⟩ := h.rest_start
  · rfl
  · rw [offsetsOf_cons]
    rfl

theorem lineStart_of_cut (hl : (front ++ line ++ rest).length ≤ maxOffset)
    (h : LineCut front line rest) :
    (ofBytes (front ++ line ++ rest)).lineStart (front.count Byte.newline + 1) =
      some front.length := by
  rw [lineStart_succ hl, getElem?_startsOf_of_cut h]

/-- A line reaches from the newline before it to the one behind it. -/
theorem lineRange_of_cut (hl : (front ++ line ++ rest).length ≤ maxOffset)
    (h : LineCut front line rest) (hmax : front.count Byte.newline + 2 ≤ maxOffset) :
    (ofBytes (front ++ line ++ rest)).lineRange (front.count Byte.newline + 1) =
      .ok (some (front.length, (front ++ line).length)) := by
  rw [lineRange, lineStart_of_cut hl h]
  simp only [checkOffset_of_le hmax, bind, Except.bind, lineStart_succ hl,
    getElem?_startsOf_succ_of_cut h]
  obtain rfl | ⟨after, rfl⟩ := h.rest_start
  · rw [if_pos rfl, length_ofBytes hl, List.append_nil]
    rfl
  · rw [if_neg (List.cons_ne_nil _ _)]
    rfl

/-- Every number up to that of the lines is the number of a line. -/
theorem exists_cut_of_le (hl : bytes.length ≤ maxOffset) {n : Nat} (hpos : 1 ≤ n)
    (hn : n ≤ (ofBytes bytes).lineCount) :
    ∃ front line rest, bytes = front ++ line ++ rest ∧ LineCut front line rest ∧
      n = front.count Byte.newline + 1 := by
  rw [lineCount, starts_ofBytes hl, length_startsOf, ← length_splitOn] at hn
  obtain ⟨front, rest, hbytes, hcut, hcount⟩ :=
    exists_cutAround Byte.newline bytes (i := n - 1) (by omega)
  exact ⟨front, _, rest, hbytes, hcut, by omega⟩

theorem count_lt_lineCount (hl : (front ++ line ++ rest).length ≤ maxOffset) :
    front.count Byte.newline < (ofBytes (front ++ line ++ rest)).lineCount := by
  rw [lineCount, starts_ofBytes hl, length_startsOf, List.count_append, List.count_append]
  omega

end LineTable

/-- The place of an offset, from the line that is cut out around it. -/
theorem Position.find_of_lineCut {front line rest : List UInt8}
    (hl : (front ++ line ++ rest).length < maxOffset) (h : LineCut front line rest) {j : Nat}
    (hj : j ≤ line.length) :
    find (front ++ line ++ rest) (front.length + j) =
      some ⟨front.count Byte.newline + 1, j + 1⟩ := by
  have hbytes : front ++ line ++ rest = front ++ line.take j ++ (line.drop j ++ rest) := by
    rw [List.append_assoc front (line.take j), ← List.append_assoc (line.take j),
      List.take_append_drop, List.append_assoc]
  have hlength : (front ++ line.take j).length = front.length + j := by
    rw [List.length_append, List.length_take, Nat.min_eq_left hj]
  have hcount : (line.take j).count Byte.newline = 0 :=
    List.count_eq_zero.mpr (h.lastLine_take j).not_mem_tail
  rw [hbytes] at hl ⊢
  rw [← hlength, find_of_lastLine (h.lastLine_take j), List.count_append, hcount,
    List.length_take, Nat.min_eq_left hj, Nat.add_zero]
  rw [List.length_append] at hl
  omega

/-- `p` stands before `q`: on an earlier line, or on the same line further left. -/
def Position.Before (p q : Position) : Prop :=
  p.line < q.line ∨ p.line = q.line ∧ p.column < q.column

theorem Position.not_before_self (p : Position) : ¬ p.Before p := by
  simp [Before]

namespace LineTable

/-- A line of the table, and a column on it or right behind its last byte. -/
structure Has (t : LineTable) (p : Position) : Prop where
  line_pos : 1 ≤ p.line
  line_le : p.line ≤ t.lineCount
  column_pos : 1 ≤ p.column
  column_le : ∃ start stop, t.lineRange p.line = .ok (some (start, stop)) ∧
    p.column ≤ stop - start + 1

/-- The offsets up to `length`, placed by `place`, and the lines and columns of a table correspond one
to one, and in order. -/
structure Corresponds (t : LineTable) (length : Nat) (place : Nat → Option Position) : Prop where
  ascending : ∀ o₁ o₂, o₁ < o₂ → o₂ ≤ length →
    ∃ p₁ p₂, place o₁ = some p₁ ∧ place o₂ = some p₂ ∧ p₁.Before p₂
  leads_back : ∀ o ≤ length, ∃ p start, place o = some p ∧ t.Has p ∧
    t.lineStart p.line = some start ∧ start + p.column - 1 = o
  placed : ∀ line, 1 ≤ line → line ≤ t.lineCount →
    ∃ start stop, t.lineRange line = .ok (some (start, stop)) ∧ start ≤ stop ∧
      ∀ column, 1 ≤ column → column ≤ stop - start + 1 →
        start + column - 1 ≤ length ∧ place (start + column - 1) = some ⟨line, column⟩
  one_to_one : ∀ p, t.Has p → ∃! o, o ≤ length ∧ place o = some p

variable {bytes : List UInt8}

theorem exists_leads_back (h : bytes.length < maxOffset - 1) {offset : Nat}
    (ho : offset ≤ bytes.length) :
    ∃ p start, Position.find bytes offset = some p ∧ (ofBytes bytes).Has p ∧
      (ofBytes bytes).lineStart p.line = some start ∧ start + p.column - 1 = offset := by
  obtain ⟨front, line, rest, j, rfl, hcut, hj, rfl⟩ := exists_cutAround_of_le Byte.newline ho
  have hcount : front.count Byte.newline ≤ front.length := List.count_le_length
  have hfront : front.length ≤ (front ++ line ++ rest).length := by
    simp only [List.length_append]
    omega
  refine ⟨_, front.length, Position.find_of_lineCut (by omega) hcut hj, ?_,
    lineStart_of_cut (by omega) hcut, rfl⟩
  refine ⟨Nat.succ_pos _, count_lt_lineCount (by omega), Nat.succ_pos _, front.length,
    (front ++ line).length, lineRange_of_cut (by omega) hcut (by omega), ?_⟩
  rw [List.length_append, Nat.add_sub_cancel_left]
  exact Nat.succ_le_succ hj

theorem exists_placed_line (h : bytes.length < maxOffset - 1) {n : Nat} (hpos : 1 ≤ n)
    (hn : n ≤ (ofBytes bytes).lineCount) :
    ∃ start stop, (ofBytes bytes).lineRange n = .ok (some (start, stop)) ∧ start ≤ stop ∧
      ∀ column, 1 ≤ column → column ≤ stop - start + 1 →
        start + column - 1 ≤ bytes.length ∧
          Position.find bytes (start + column - 1) = some ⟨n, column⟩ := by
  obtain ⟨front, line, rest, rfl, hcut, rfl⟩ := exists_cut_of_le (by omega) hpos hn
  have hcount : front.count Byte.newline ≤ front.length := List.count_le_length
  have hfront : front.length ≤ (front ++ line ++ rest).length := by
    simp only [List.length_append]
    omega
  refine ⟨front.length, (front ++ line).length, lineRange_of_cut (by omega) hcut (by omega),
    by simp, ?_⟩
  intro column hc hle
  obtain ⟨j, rfl⟩ := Nat.exists_eq_add_of_le' hc
  rw [List.length_append] at hle
  have hj : j ≤ line.length := by omega
  refine ⟨?_, Position.find_of_lineCut (by omega) hcut hj⟩
  simp only [List.length_append]
  omega

theorem before_of_lt (h : bytes.length < maxOffset - 1) {o₁ o₂ : Nat} (hlt : o₁ < o₂)
    (hle : o₂ ≤ bytes.length) :
    ∃ p₁ p₂, Position.find bytes o₁ = some p₁ ∧ Position.find bytes o₂ = some p₂ ∧
      p₁.Before p₂ := by
  obtain ⟨p₁, s₁, hp₁, hhas₁, hs₁, ho₁⟩ := exists_leads_back h (show o₁ ≤ bytes.length by omega)
  obtain ⟨p₂, s₂, hp₂, -, hs₂, ho₂⟩ := exists_leads_back h hle
  refine ⟨p₁, p₂, hp₁, hp₂, ?_⟩
  have hline₁ := (Position.places_of_find (by omega) hp₁).line
  have hline₂ := (Position.places_of_find (by omega) hp₂).line
  have hcount : (bytes.take o₁).count Byte.newline ≤ (bytes.take o₂).count Byte.newline :=
    (List.take_prefix_take_left (Nat.le_of_lt hlt)).sublist.count_le _
  rcases Nat.lt_or_ge p₁.line p₂.line with hless | hge
  · exact .inl hless
  · have hsame : p₁.line = p₂.line := by omega
    rw [hsame, hs₂] at hs₁
    obtain rfl := Option.some.inj hs₁
    have hpos := hhas₁.column_pos
    exact .inr ⟨hsame, by omega⟩

theorem offset_unique (h : bytes.length < maxOffset - 1) {o₁ o₂ : Nat} {p : Position}
    (hle₁ : o₁ ≤ bytes.length) (hle₂ : o₂ ≤ bytes.length)
    (hp₁ : Position.find bytes o₁ = some p) (hp₂ : Position.find bytes o₂ = some p) : o₁ = o₂ := by
  have hnot : ∀ o₁ o₂, o₁ < o₂ → o₂ ≤ bytes.length → Position.find bytes o₁ = some p →
      Position.find bytes o₂ = some p → False := by
    intro o₁ o₂ hlt hle hp₁ hp₂
    obtain ⟨q₁, q₂, hq₁, hq₂, hbefore⟩ := before_of_lt h hlt hle
    obtain rfl := Option.some.inj (hp₁.symm.trans hq₁)
    obtain rfl := Option.some.inj (hp₂.symm.trans hq₂)
    exact Position.not_before_self p hbefore
  rcases Nat.lt_trichotomy o₁ o₂ with hlt | heq | hgt
  · exact absurd hp₂ (hnot o₁ o₂ hlt hle₂ hp₁)
  · exact heq
  · exact absurd hp₁ (hnot o₂ o₁ hgt hle₁ hp₂)

theorem existsUnique_offset (h : bytes.length < maxOffset - 1) {p : Position}
    (hp : (ofBytes bytes).Has p) :
    ∃! o, o ≤ bytes.length ∧ Position.find bytes o = some p := by
  obtain ⟨start, stop, hrange, hle, hplaced⟩ := exists_placed_line h hp.line_pos hp.line_le
  obtain ⟨start', stop', hrange', hcolumn⟩ := hp.column_le
  obtain ⟨rfl, rfl⟩ : start = start' ∧ stop = stop' := by
    simpa using hrange.symm.trans hrange'
  obtain ⟨hlength, hfind⟩ := hplaced p.column hp.column_pos hcolumn
  refine ⟨start + p.column - 1, ⟨hlength, hfind⟩, ?_⟩
  rintro o ⟨ho, hp⟩
  exact offset_unique h ho hlength hp hfind

/-- Places name the offsets of a text one to one and in their order, whether they come from the table
or are counted: from the start of its line, a place leads back to its offset, and every column of every
line, the one behind the line's last byte included, is the place of an offset. -/
theorem offsets_correspond (bytes : List UInt8) (h : bytes.length < maxOffset - 1) :
    (∀ offset, (ofBytes bytes).position offset = .ok (Position.find bytes offset)) ∧
      (ofBytes bytes).Corresponds bytes.length (Position.find bytes) := by
  refine ⟨position_ofBytes (by omega), ?_, ?_, ?_, ?_⟩
  · intro o₁ o₂ hlt hle
    exact before_of_lt h hlt hle
  · intro o ho
    exact exists_leads_back h ho
  · intro line hpos hle
    exact exists_placed_line h hpos hle
  · intro p hp
    exact existsUnique_offset h hp

/-- Behind the last newline there is one more line, which is empty and has one column: the end of the
text. The newline itself takes the last column of its line. -/
theorem corresponds_of_blank_lines :
    (ofBytes [0x61, Byte.newline, Byte.newline]).Corresponds 3
        (Position.find [0x61, Byte.newline, Byte.newline]) ∧
      (List.range 4).map (Position.find [0x61, Byte.newline, Byte.newline]) =
        [some ⟨1, 1⟩, some ⟨1, 2⟩, some ⟨2, 1⟩, some ⟨3, 1⟩] := by
  obtain ⟨-, hc⟩ := offsets_correspond [0x61, Byte.newline, Byte.newline] (by decide)
  exact ⟨hc, rfl⟩

end LineTable

end BraceBalance
