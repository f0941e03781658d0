import BraceBalance.Source
import BraceBalance.Proofs.Boundaries
import BraceBalance.Proofs.Ranges

/-!
# Line texts

The lines of a source are the pieces of its text between the newlines, so the text is had back by
joining them. A cut of the characters around a piece is a cut of the bytes, since the newline byte is
in no other character, and the range of the line is where the bytes are cut. A line is shown without
the carriage return that may end it, and a number that no line has is answered with nothing.
-/

namespace BraceBalance

theorem Text.bytes_of_toList {text : String} {u v w : List Char} (h : text.toList = u ++ v ++ w) :
    bytes text = encode u ++ encode v ++ encode w := by
  rw [← encode_toList, h, encode_append, encode_append]

theorem Text.count_newline (cs : List Char) :
    (encode cs).count Byte.newline = cs.count '\n' :=
  count_encode (a := '\n') (by decide) cs

namespace CutAround

variable {front piece rest : List Char}

/-- The characters of a text and its bytes are cut alike. -/
theorem encode (h : CutAround '\n' front piece rest) :
    LineCut (Text.encode front) (Text.encode piece) (Text.encode rest) where
  front_end := by
    obtain rfl | ⟨before, rfl⟩ := h.front_end
    · exact .inl rfl
    · exact .inr ⟨Text.encode before, Text.encode_append before ['\n']⟩
  not_mem := by
    rw [← List.count_eq_zero, Text.count_newline]
    exact List.count_eq_zero.mpr h.not_mem
  rest_start := by
    obtain rfl | ⟨after, rfl⟩ := h.rest_start
    · exact .inl rfl
    · exact .inr ⟨Text.encode after, Text.encode_cons '\n' after⟩

end CutAround

namespace Source

/-- The line with number `n`: the characters in its range, none of whose bytes is a newline, are `line`,
and it is shown without one carriage return at its end. -/
structure HasLine (s : Source) (n : Nat) (line : String) : Prop where
  range : ∃ start stop, s.lines.lineStart n = some start ∧
    s.lines.lineRange n = .ok (some (start, stop)) ∧
    Text.slice? s.text start stop = some line.toList ∧
    ∀ i, start ≤ i → i < stop → (Text.bytes s.text)[i]? ≠ some Byte.newline
  shown : ∃ shown, s.lineText n = .ok (some shown) ∧
    (line = shown ++ "\r" ∨ line = shown ∧ line.toList.getLast? ≠ some '\r')

/-- No line has the number `n`. -/
structure LacksLine (s : Source) (n : Nat) : Prop where
  start : s.lines.lineStart n = none
  range : s.lines.lineRange n = .ok none
  shown : s.lineText n = .ok none

theorem dropReturn_cases (line : List Char) :
    line = dropReturn line ++ ['\r'] ∨ line = dropReturn line ∧ line.getLast? ≠ some '\r' := by
  rw [dropReturn]
  split
  case isTrue h =>
    obtain ⟨kept, rfl⟩ := List.getLast?_eq_some_iff.mp h
    exact .inl (by rw [List.dropLast_concat])
  case isFalse h => exact .inr ⟨rfl, h⟩

variable {text : String}

theorem lineText_of_slice {s : Source} {n start stop : Nat} {chars : List Char}
    (hrange : s.lines.lineRange n = .ok (some (start, stop)))
    (hslice : Text.slice? s.text start stop = some chars) :
    s.lineText n = .ok (some (String.ofList (dropReturn chars))) := by
  rw [lineText, hrange]
  simp only [bind, Except.bind, hslice]
  rfl

theorem lacksLine_of_lineStart {s : Source} {n : Nat} (h : s.lines.lineStart n = none) :
    s.LacksLine n := by
  have hrange : s.lines.lineRange n = .ok none := by
    rw [LineTable.lineRange, h]
    rfl
  refine ⟨h, hrange, ?_⟩
  rw [lineText, hrange]
  rfl

/-- A text that is cut around a line has that line. -/
theorem hasLine_of_cut (path : String) {front line rest : List Char}
    (htext : text.toList = front ++ line ++ rest) (hcut : CutAround '\n' front line rest)
    (h : (Text.bytes text).length ≤ maxOffset) (hmax : front.count '\n' + 2 ≤ maxOffset) :
    (ofText path text).HasLine (front.count '\n' + 1) (String.ofList line) := by
  have hbytes := Text.bytes_of_toList htext
  have hcount := Text.count_newline front
  have hslice : Text.slice? text (Text.encode front).length
      (Text.encode front ++ Text.encode line).length = some line := by
    refine Text.slice?_eq_some_iff.mpr ⟨front, rest, ⟨?_, rfl⟩, htext, ?_⟩
    · rw [htext, List.append_assoc]
    · rw [Text.encode_append]
  have hstart : (ofText path text).lines.lineStart (front.count '\n' + 1) =
      some (Text.encode front).length := by
    rw [ofText, hbytes, ← hcount]
    exact LineTable.lineStart_of_cut (hbytes ▸ h) hcut.encode
  have hrange : (ofText path text).lines.lineRange (front.count '\n' + 1) =
      .ok (some ((Text.encode front).length, (Text.encode front ++ Text.encode line).length)) := by
    rw [ofText, hbytes, ← hcount]
    exact LineTable.lineRange_of_cut (hbytes ▸ h) hcut.encode (hcount ▸ hmax)
  refine ⟨⟨_, _, hstart, hrange, ?_, ?_⟩, _, lineText_of_slice hrange hslice, ?_⟩
  · rw [String.toList_ofList]
    exact hslice
  · intro i hlo hhi
    rw [ofText, hbytes]
    exact (hcut.encode.lastLine.lineStartsAt (Text.encode rest)).no_newline i hlo hhi
  · obtain hreturn | ⟨hsame, hlast⟩ := dropReturn_cases line
    · exact .inl (by rw [← String.toList_inj]; simpa using hreturn)
    · exact .inr ⟨congrArg String.ofList hsame, by rwa [String.toList_ofList]⟩

/-- The lines of a text are the pieces that its newlines leave. -/
theorem hasLine_splitOn (path : String) (h : (Text.bytes text).length ≤ maxOffset) {i : Nat}
    (hi : i < (text.toList.splitOn '\n').length) (hmax : i + 2 ≤ maxOffset) :
    (ofText path text).HasLine (i + 1) (String.ofList (text.toList.splitOn '\n')[i]) := by
  obtain ⟨front, rest, htext, hcut, hcount⟩ := exists_cutAround '\n' text.toList hi
  have hline := hasLine_of_cut path htext hcut h (by omega)
  rwa [hcount] at hline

theorem length_splitOn_text (text : String) :
    (text.toList.splitOn '\n').length = (Text.bytes text).count Byte.newline + 1 := by
  rw [length_splitOn, ← Text.encode_toList, Text.count_newline]

theorem exists_lineText_succ (path : String) (h : (Text.bytes text).length ≤ maxOffset) {k : Nat}
    (hk : k ≤ (Text.bytes text).count Byte.newline) (hmax : k + 2 ≤ maxOffset) :
    ∃ line, (ofText path text).lineText (k + 1) = .ok (some line) := by
  have hlt : k < (text.toList.splitOn '\n').length := by
    rw [length_splitOn_text]
    omega
  obtain ⟨line, hline, -⟩ := (hasLine_splitOn path h hlt hmax).shown
  exact ⟨line, hline⟩

theorem lineCount_ofText (path : String) (h : (Text.bytes text).length ≤ maxOffset) :
    (ofText path text).lines.lineCount = (Text.bytes text).count Byte.newline + 1 := by
  rw [ofText, LineTable.lineCount, LineTable.starts_ofBytes h, LineTable.length_startsOf]

/-- Joining the lines of a text gives the text back. There is one line more than there are newlines,
and a number is that of a line just if it is positive and at most that many; with any other there is no
line, no range and no text, and no fault. -/
theorem lines_rebuild (path text : String) (h : (Text.bytes text).length ≤ maxOffset)
    (hlines : (Text.bytes text).count Byte.newline + 1 < maxOffset) :
    (ofText path text).lines.lineCount = 1 + (Text.bytes text).count Byte.newline ∧
      (∃ lines : List String, lines.length = (ofText path text).lines.lineCount ∧
        "\n".intercalate lines = text ∧
        ∀ i (hi : i < lines.length), (ofText path text).HasLine (i + 1) lines[i]) ∧
      ∀ n, n = 0 ∨ (ofText path text).lines.lineCount < n → (ofText path text).LacksLine n := by
  rw [lineCount_ofText path h]
  refine ⟨Nat.add_comm _ _, ⟨(text.toList.splitOn '\n').map String.ofList, ?_, ?_, ?_⟩, ?_⟩
  · rw [List.length_map, length_splitOn_text]
  · rw [← String.toList_inj, String.toList_intercalate, List.map_map]
    simp [Function.comp_def, List.intercalate_splitOn]
  · intro i hi
    rw [List.length_map] at hi
    have hle := length_splitOn_text text
    rw [List.getElem_map]
    exact hasLine_splitOn path h hi (by omega)
  · intro n hn
    refine lacksLine_of_lineStart ?_
    cases n with
    | zero => rfl
    | succ n =>
      rw [ofText, LineTable.lineStart_succ h, List.getElem?_eq_none_iff, LineTable.length_startsOf]
      omega

/-- A carriage return is dropped once, and behind the newline at the end there is an empty line. -/
theorem lines_of_returns :
    (∃ lines : List String, lines.length = 3 ∧ "\n".intercalate lines = "\x7b\r\r\n\x7d\n" ∧
      ∀ i (hi : i < lines.length), (ofText "a.ts" "\x7b\r\r\n\x7d\n").HasLine (i + 1) lines[i]) ∧
      (ofText "a.ts" "\x7b\r\r\n\x7d\n").lineText 1 = .ok (some "\x7b\r") ∧
      (ofText "a.ts" "\x7b\r\r\n\x7d\n").lineText 3 = .ok (some "") ∧
      (ofText "a.ts" "\x7b\r\r\n\x7d\n").LacksLine maxOffset := by
  obtain ⟨hcount, hlines, hlacks⟩ :=
    lines_rebuild "a.ts" "\x7b\r\r\n\x7d\n" (by decide) (by decide)
  rw [hcount] at hlines hlacks
  exact ⟨hlines, rfl, rfl, hlacks maxOffset (.inr (by decide))⟩

end Source

end BraceBalance
