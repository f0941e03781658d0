import BraceBalance.Proofs.Controls
import BraceBalance.Proofs.Notices

/-!
# The table read back

The table of spans is text for a program to read: no field holds a tab or the end of a line, whatever
the text holds, so a line falls into its fields and the table into its lines. A reader that knows the
separators and the digits alone has the spans back.
-/

namespace BraceBalance

namespace Byte

abbrev dot : UInt8 := 0x2e
abbrev digitZero : UInt8 := 0x30

end Byte

/-- A number with one more decimal digit. -/
def readDigit? (n : Nat) (b : UInt8) : Option Nat :=
  if Byte.digitZero ≤ b ∧ b.toNat < Byte.digitZero.toNat + 10 then
    some (10 * n + (b.toNat - Byte.digitZero.toNat))
  else none

/-- Reads a number in decimal, which has at least one digit. -/
def readNat? (digits : List UInt8) : Option Nat :=
  if digits = [] then none else digits.foldlM readDigit? 0

theorem readDigit?_of_lt {d : Nat} (hd : d < 10) (n : Nat) :
    (Text.encode [Nat.digitChar d]).foldlM readDigit? n = some (10 * n + d) := by
  have hdigit : ∀ d < 10, Text.encode [Nat.digitChar d] = [UInt8.ofNat (0x30 + d)] ∧
      Byte.digitZero ≤ UInt8.ofNat (0x30 + d) ∧ (UInt8.ofNat (0x30 + d)).toNat = 0x30 + d := by
    decide
  obtain ⟨hbyte, hle, hvalue⟩ := hdigit d hd
  rw [hbyte, List.foldlM_cons, readDigit?, hvalue, if_pos ⟨hle, Nat.add_lt_add_left hd _⟩]
  exact congrArg (fun k => some (10 * n + k)) (Nat.add_sub_cancel_left 0x30 d)

theorem foldlM_readDigit? (n : Nat) :
    (Text.encode (Nat.toDigits 10 n)).foldlM readDigit? 0 = some n := by
  induction n using Nat.strongRecOn with
  | _ n ih =>
    rw [Nat.toDigits_eq_if (by decide)]
    split
    case isTrue hn => rw [readDigit?_of_lt hn, Nat.mul_zero, Nat.zero_add]
    case isFalse hn =>
      -- The digits but the last are those of `n / 10`, and the reader takes them first.
      rw [Text.encode_append, List.foldlM_append, ih (n / 10) (by omega), Option.bind_eq_bind,
        Option.bind_some, readDigit?_of_lt (Nat.mod_lt n (by decide)), Nat.div_add_mod]

theorem readNat?_bytes (n : Nat) : readNat? (Text.bytes (toString n)) = some n := by
  have hbytes : Text.bytes (toString n) = Text.encode (Nat.toDigits 10 n) := by
    rw [← Text.encode_toList, Nat.toString_eq_repr, Nat.toList_repr]
  have hne : Text.encode (Nat.toDigits 10 n) ≠ [] := fun hnil =>
    Nat.toDigits_ne_nil (Text.length_encode_eq_zero_iff.mp (congrArg List.length hnil))
  rw [readNat?, hbytes, if_neg hne, foldlM_readDigit?]

theorem dot_not_mem_bytes (n : Nat) : Byte.dot ∉ Text.bytes (toString n) := by
  have hchar : '.' ∉ (toString n).toList := by
    rw [Nat.toString_eq_repr, Nat.toList_repr]
    intro hm
    exact absurd (Nat.isDigit_of_mem_toDigits (by decide) (by decide) hm) (by decide)
  rw [← List.count_eq_zero, ← Text.encode_toList]
  exact (Text.count_encode (a := '.') (by decide) _).trans (List.count_eq_zero.mpr hchar)

namespace SpanReport

/-- A line of the table as it is read: its fields, and the two numbers of its range. -/
structure Row where
  place : List UInt8
  start : Nat
  stop : Nat
  region : List UInt8
  snippet : List UInt8
  deriving DecidableEq, Repr

/-- Reads two numbers with two dots between them. -/
def readRange? (range : List UInt8) : Option (Nat × Nat) :=
  match range.splitOn Byte.dot with
  | [start, [], stop] => do return (← readNat? start, ← readNat? stop)
  | _ => none

def Row.read? (line : List UInt8) : Option Row :=
  match line.splitOn Byte.tab with
  | [place, range, region, snippet] =>
    (readRange? range).map fun (start, stop) => ⟨place, start, stop, region, snippet⟩
  | _ => none

/-- Reads the lines of a table, each of which ends in a newline. -/
def readTable? (table : List UInt8) : Option (List Row) :=
  (table.splitOn Byte.newline).dropLast.mapM Row.read?

theorem readRange?_bytes (start stop : Nat) :
    readRange? (Text.bytes (toString start ++ ".." ++ toString stop)) = some (start, stop) := by
  have hsplit : (Text.bytes (toString start ++ ".." ++ toString stop)).splitOn Byte.dot =
      [Text.bytes (toString start), [], Text.bytes (toString stop)] := by
    have hfields : ∀ field ∈ [Text.bytes (toString start), [], Text.bytes (toString stop)],
        Byte.dot ∉ field := by
      simp only [List.forall_mem_cons]
      exact ⟨dot_not_mem_bytes start, List.not_mem_nil, dot_not_mem_bytes stop, nofun⟩
    have hjoin : Text.bytes (toString start ++ ".." ++ toString stop) =
        [Byte.dot].intercalate [Text.bytes (toString start), [], Text.bytes (toString stop)] := by
      have hdots : Text.bytes ".." = [Byte.dot, Byte.dot] := by decide
      rw [Text.bytes_append, Text.bytes_append, hdots]
      simp [List.intercalate]
    rw [hjoin, List.splitOn_intercalate Byte.dot hfields (List.cons_ne_nil _ _)]
  rw [readRange?, hsplit]
  simp only [readNat?_bytes]
  rfl

/-- What a line says of its span: where it starts, its range, its region, and how it begins. -/
def Describes (text : String) (r : Span) (row : Row) : Prop :=
  ∃ p chars, Position.find (Text.bytes text) r.start = some p ∧
    Text.slice? text r.start r.stop = some chars ∧
    row = ⟨Text.bytes p.text, r.start, r.stop, Text.bytes r.region.name,
      Text.bytes (Text.Quoted.text (chars.take (min 24 chars.length)))⟩

section

variable {fields : List String}

/-- Text without controls falls into its fields at the tabs between them. -/
theorem splitOn_joined (h : ∀ field ∈ fields, Text.NoControls field) (hne : fields ≠ []) :
    ([Byte.tab].intercalate (fields.map Text.bytes)).splitOn Byte.tab = fields.map Text.bytes := by
  refine List.splitOn_intercalate Byte.tab ?_ (by simpa using hne)
  intro field hfield
  obtain ⟨s, hs, rfl⟩ := List.mem_map.mp hfield
  exact (h s hs).not_mem_bytes (by decide)

theorem count_tab_joined (h : ∀ field ∈ fields, Text.NoControls field) (hne : fields ≠ []) :
    ([Byte.tab].intercalate (fields.map Text.bytes)).count Byte.tab + 1 = fields.length := by
  rw [← length_splitOn, splitOn_joined h hne, List.length_map]

theorem newline_not_mem_joined (h : ∀ field ∈ fields, Text.NoControls field) :
    Byte.newline ∉ [Byte.tab].intercalate (fields.map Text.bytes) := by
  induction fields with
  | nil => exact List.not_mem_nil
  | cons field rest ih =>
    obtain ⟨hfield, hrest⟩ := List.forall_mem_cons.mp h
    have hnot : Byte.newline ∉ Text.bytes field := hfield.not_mem_bytes (by decide)
    cases rest with
    | nil => simpa [List.intercalate] using hnot
    | cons next rest =>
      rw [List.map_cons, List.map_cons, List.intercalate_cons_cons, List.mem_append,
        List.mem_append]
      exact not_or.mpr ⟨not_or.mpr ⟨hnot, by decide⟩, ih hrest⟩

end

theorem exists_line {text : String} {r : Span} {pieces : List String}
    (h : (Text.bytes text).length < maxOffset) (hs : Shown text r pieces) :
    ∃ line row, pieces.flatMap Text.bytes = line ++ [Byte.newline] ∧
      Byte.newline ∉ line ∧ line.count Byte.tab = 3 ∧ Row.read? line = some row ∧
      Describes text r row := by
  obtain ⟨p, chars, hp, hchars, -, rfl⟩ := hs
  rw [LineTable.position_ofBytes h] at hp
  have hfields : ∀ field ∈ [p.text, toString r.start ++ ".." ++ toString r.stop, r.region.name,
      Text.Quoted.text (chars.take snippetLength)], Text.NoControls field := by
    simp +decide [p.noControls_text, r.region.noControls_name, Text.Quoted.noControls_text]
  have htab : Text.bytes "\t" = [Byte.tab] := by decide
  have hnewline : Text.bytes "\n" = [Byte.newline] := by decide
  have hcount := Nat.succ.inj (count_tab_joined hfields (by simp))
  refine ⟨_, _, ?bytes, newline_not_mem_joined hfields, hcount, ?read, p, chars, Except.ok.inj hp,
    hchars, rfl⟩
  case bytes => simp [List.intercalate, Text.bytes_append, htab, hnewline]
  case read =>
    rw [Row.read?, splitOn_joined hfields (by simp), ← List.take_eq_take_min]
    simp only [List.map_cons, List.map_nil, readRange?_bytes]
    rfl

/-- A table falls into lines, one for each span in order, and the reader has what they say. -/
structure Tabulates (text : String) (spans : List Span) (table : List UInt8) : Prop where
  lines : ∃ lines : List (List UInt8), table = lines.flatMap (· ++ [Byte.newline]) ∧
    lines.length = spans.length ∧ ∀ line ∈ lines, Byte.newline ∉ line ∧ line.count Byte.tab = 3
  rows : ∃ rows, readTable? table = some rows ∧ List.Forall₂ (Describes text) spans rows

theorem readTable?_cons {line : List UInt8} (h : Byte.newline ∉ line) (table : List UInt8) :
    readTable? (line ++ Byte.newline :: table) =
      (do return (← Row.read? line) :: (← readTable? table)) := by
  rw [readTable?, List.splitOn_append_cons_self_of_not_mem h,
    List.dropLast_cons_of_ne_nil (List.splitOn_ne_nil _ _), List.mapM_cons, readTable?]

theorem tabulates_nil (text : String) : Tabulates text [] [] :=
  ⟨⟨[], rfl, rfl, nofun⟩, [], rfl, .nil⟩

theorem Tabulates.cons {text : String} {r : Span} {spans : List Span} {line table : List UInt8}
    {row : Row} (hn : Byte.newline ∉ line) (ht : line.count Byte.tab = 3)
    (hread : Row.read? line = some row) (hrow : Describes text r row)
    (h : Tabulates text spans table) :
    Tabulates text (r :: spans) (line ++ Byte.newline :: table) := by
  obtain ⟨⟨lines, rfl, hlength, hlines⟩, rows, hrows, hdescribes⟩ := h
  have hall := List.forall_mem_cons.mpr ⟨⟨hn, ht⟩, hlines⟩
  refine ⟨⟨line :: lines, ?_, congrArg (· + 1) hlength, hall⟩, row :: rows, ?_,
    .cons hrow hdescribes⟩
  · rw [List.flatMap_cons, List.append_assoc, List.singleton_append]
  · rw [readTable?_cons hn, hread, hrows]
    rfl

theorem tabulates_flatten {text : String} {spans : List Span} {rows : List (List String)}
    (h : (Text.bytes text).length < maxOffset) (hs : List.Forall₂ (Shown text) spans rows) :
    Tabulates text spans (rows.flatten.flatMap Text.bytes) := by
  induction hs with
  | nil => exact tabulates_nil text
  | cons hshown _ ih =>
    obtain ⟨line, row, hbytes, hn, ht, hread, hrow⟩ := exists_line h hshown
    rw [List.flatten_cons, List.flatMap_append, hbytes, List.append_assoc, List.singleton_append]
    exact .cons hn ht hread hrow ih

/-- The table of spans can be read back. It is written in full, one line for each span in order, with
three tabs and no newline in it; the ranges read from the lines are those of the spans, which partition
the text, and the other fields tell the place, the region and the first characters of the span. -/
theorem table_reads_back (text : String) (h : (Text.bytes text).length < maxOffset) :
    ∃ spans out, (Buffer.ofText text).spans = .ok spans ∧
      Span.Partition spans (Text.bytes text).length ∧
      writeText text (.withRoom none) = .ok (out, .ok ()) ∧
      Tabulates text spans out.taken.toList := by
  obtain ⟨spans, rows, hspans, hrows, hshown⟩ := exists_shown text h
  obtain ⟨spans', hspans', hcovers⟩ := Buffer.exists_covers (Nat.le_of_lt h)
  obtain rfl : spans' = spans := Except.ok.inj (hspans'.symm.trans hspans)
  refine ⟨_, _, hspans, hcovers.partition, writeText_eq hrows (.withRoom none), ?_⟩
  rw [Sink.taken_offer_withRoom]
  exact tabulates_flatten h hshown

/-- A tab and a line end of the text are written in a field and do not end it. -/
theorem table_of_tab_and_newline :
    ∃ out, writeText "'\t'\x7b\n" (.withRoom none) = .ok (out, .ok ()) ∧
      Tabulates "'\t'\x7b\n" [⟨.quoted .single, 0, 3⟩, ⟨.code, 3, 5⟩] out.taken.toList ∧
      readTable? out.taken.toList = some
        [⟨Text.bytes "1:1", 0, 3, Text.bytes "single-quoted string", Text.bytes "\"'\\t'\""⟩,
          ⟨Text.bytes "1:4", 3, 5, Text.bytes "code", Text.bytes "\"\x7b\\n\""⟩] := by
  obtain ⟨spans, out, hspans, -, hwrite, htable⟩ := table_reads_back "'\t'\x7b\n" (by decide)
  obtain rfl : [⟨.quoted .single, 0, 3⟩, ⟨.code, 3, 5⟩] = spans := Except.ok.inj hspans
  refine ⟨out, hwrite, htable, ?_⟩
  obtain rfl : _ = out := congrArg Prod.fst (Except.ok.inj (rfl.symm.trans hwrite))
  decide

end SpanReport

end BraceBalance
