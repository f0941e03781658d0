import BraceBalance.Proofs.Checking
import BraceBalance.Proofs.Stretches

/-!
# The greatest text

A text of the greatest length may be scanned, but the end of it cannot always be shown. Through the
table, a column is one number past its offset in the line, so the end of a text in one line has none;
and to show a line the table asks where the next one starts, so the line of the greatest number cannot
be shown. Of a text that is shorter by one byte, everything that a check reports can be shown.
-/

namespace BraceBalance

/-- The computation overflows just if `p` holds, and otherwise comes to an end. -/
structure OverflowsIff {α : Type} (x : Except Fault α) (p : Prop) : Prop where
  overflow : p → x = .error .overflow
  completes : ¬ p → ∃ y, x = .ok y

namespace OverflowsIff

variable {α β : Type} {x : Except Fault α} {p : Prop}

theorem eq_error_iff (h : OverflowsIff x p) : x = .error .overflow ↔ p := by
  refine ⟨fun hx => ?_, h.overflow⟩
  by_contra hp
  obtain ⟨y, hy⟩ := h.completes hp
  cases hx.symm.trans hy

/-- What is done with the result does not fail. -/
theorem map (h : OverflowsIff x p) (f : α → β) : OverflowsIff (x.map f) p where
  overflow hp := by rw [h.overflow hp]; rfl
  completes hp := by
    obtain ⟨y, hy⟩ := h.completes hp
    exact ⟨f y, by rw [hy]; rfl⟩

/-- Of a list, one element has to overflow. -/
theorem mapM {f : α → Except Fault β} {q : α → Prop} {xs : List α}
    (h : ∀ x ∈ xs, OverflowsIff (f x) (q x)) : OverflowsIff (xs.mapM f) (∃ x ∈ xs, q x) := by
  induction xs with
  | nil => exact ⟨fun hex => by simp at hex, fun _ => ⟨[], rfl⟩⟩
  | cons x xs ih =>
    have hx := h x List.mem_cons_self
    have hxs := ih fun y hy => h y (List.mem_cons_of_mem _ hy)
    rw [List.mapM_cons]
    by_cases hq : q x
    · refine ⟨fun _ => by rw [hx.overflow hq]; rfl, fun hn => ?_⟩
      exact absurd ⟨x, List.mem_cons_self, hq⟩ hn
    obtain ⟨y, hy⟩ := hx.completes hq
    rw [hy]
    constructor
    · rintro ⟨z, hz, hqz⟩
      obtain rfl | hz := List.mem_cons.mp hz
      · exact absurd hqz hq
      · simp only [bind, Except.bind, hxs.overflow ⟨z, hz, hqz⟩]
    · intro hn
      obtain ⟨ys, hys⟩ := hxs.completes fun ⟨z, hz, hqz⟩ => hn ⟨z, List.mem_cons_of_mem _ hz, hqz⟩
      simp only [bind, Except.bind, hys]
      exact ⟨_, rfl⟩

end OverflowsIff

/-- The place of `offset` has no column, or no line comes after the one it is on. -/
def PastLimit (bytes : List UInt8) (offset : Nat) : Prop :=
  (offset = maxOffset ∧ Byte.newline ∉ bytes) ∨
    maxOffset ≤ (bytes.take offset).count Byte.newline + 1

section

variable {bytes : List UInt8} {offset : Nat}

theorem Position.exists_find (h : offset ≤ bytes.length) : ∃ p, find bytes offset = some p := by
  rw [find, if_pos h]
  exact ⟨_, rfl⟩

/-- The table gives the place that counting gives, except for the end of the greatest text in one
line. -/
theorem LineTable.position_of_le (h : bytes.length ≤ maxOffset) (ho : offset ≤ bytes.length) :
    (ofBytes bytes).position offset =
      if offset = maxOffset ∧ Byte.newline ∉ bytes then .error .overflow
      else .ok (Position.find bytes offset) := by
  obtain ⟨front, tail, rest, rfl, rfl, hc⟩ := exists_cut ho
  rw [position_of_cut hc rest h, Position.find_of_cut hc]
  simp only [List.length_append, List.mem_append] at h ⊢
  by_cases ht : tail.length + 1 ≤ maxOffset
  · have hcond : ¬ (front.length + tail.length = maxOffset ∧
        ¬ ((Byte.newline ∈ front ∨ Byte.newline ∈ tail) ∨ Byte.newline ∈ rest)) := by
      rintro ⟨hlen, hnot⟩
      obtain rfl | ⟨before, rfl⟩ := hc.front_end
      · simp only [List.length_nil] at hlen
        omega
      · exact hnot (.inl (.inl (by simp)))
    rw [if_neg hcond, checkOffset_of_le ht, saturate_of_le ht]
    rfl
  · obtain rfl : front = [] := List.length_eq_zero_iff.mp (by omega)
    obtain rfl : rest = [] := List.length_eq_zero_iff.mp (by omega)
    have hcond : ([] : List UInt8).length + tail.length = maxOffset ∧
        ¬ ((Byte.newline ∈ [] ∨ Byte.newline ∈ tail) ∨ Byte.newline ∈ []) :=
      ⟨by simp only [List.length_nil]; omega, by simpa using hc.not_mem_tail⟩
    rw [if_pos hcond, checkOffset, if_neg ht]
    rfl

end

section

variable {text : String}

theorem Source.lineText_past (path : String) (h : (Text.bytes text).length ≤ maxOffset)
    (hk : maxOffset ≤ (Text.bytes text).count Byte.newline + 1) :
    (ofText path text).lineText maxOffset = .error .overflow := by
  have hmax : maxOffset = 4294967294 + 1 := rfl
  have hlt : 4294967294 < (LineTable.startsOf (Text.bytes text)).length := by
    rw [LineTable.length_startsOf]
    omega
  rw [lineText, ofText, hmax,
    LineTable.lineRange_past h (List.getElem?_eq_getElem hlt) (by omega)]
  rfl

theorem Source.spot_overflowsIff (path : String) (h : (Text.bytes text).length ≤ maxOffset)
    {offset : Nat} (ho : offset ≤ (Text.bytes text).length) :
    OverflowsIff ((ofText path text).spot offset) (PastLimit (Text.bytes text) offset) := by
  have hp : (ofText path text).position offset = _ := LineTable.position_of_le h ho
  by_cases hend : offset = maxOffset ∧ Byte.newline ∉ Text.bytes text
  · rw [if_pos hend] at hp
    exact ⟨fun _ => by rw [spot, hp]; rfl, fun hn => absurd (.inl hend) hn⟩
  have hcount : ((Text.bytes text).take offset).count Byte.newline ≤
      (Text.bytes text).count Byte.newline := (List.take_sublist _ _).count_le _
  rw [if_neg hend, Position.find, if_pos ho] at hp
  rw [spot, hp]
  by_cases hk : maxOffset ≤ ((Text.bytes text).take offset).count Byte.newline + 1
  · have hline : saturate (((Text.bytes text).take offset).count Byte.newline + 1) = maxOffset :=
      Nat.min_eq_right hk
    refine ⟨fun _ => ?_, fun hn => absurd (.inr hk) hn⟩
    simp only [bind, Except.bind, hline, lineText_past path h (by omega)]
  · obtain ⟨line, hl⟩ := exists_lineText_succ path h hcount (by omega)
    refine ⟨fun hpast => absurd hpast (not_or.mpr ⟨hend, hk⟩), fun _ => ?_⟩
    simp only [bind, Except.bind, saturate_of_le (Nat.le_of_not_le hk), hl]
    exact ⟨_, rfl⟩

theorem Rendering.diagnostics_overflowsIff (colors : Bool) (path : String)
    (h : (Text.bytes text).length ≤ maxOffset) {ds : List Diagnostic}
    (hd : ∀ d ∈ ds, d.offset ≤ (Text.bytes text).length) :
    OverflowsIff (diagnostics colors (Source.ofText path text) ds)
      (∃ d ∈ ds, PastLimit (Text.bytes text) d.offset) := by
  refine (OverflowsIff.mapM fun d hmem => ?_).map List.flatten
  exact (Source.spot_overflowsIff path h (hd d hmem)).map fun spot => atSpot colors path spot d

/-- `n` times the same letter, which stands for a text of any length. -/
def Text.letters (n : Nat) : String := String.ofList (List.replicate n 'a')

theorem Text.bytes_append_letters (s : String) (n : Nat) :
    bytes (s ++ letters n) = bytes s ++ List.replicate n 0x61 := by
  have ha : String.utf8EncodeChar 'a' = [0x61] := rfl
  rw [bytes_append, letters, bytes, bytes, String.toList_ofList]
  congr 1
  induction n with
  | zero => rfl
  | succ n ih => rw [List.replicate_succ, List.flatMap_cons, ih, ha]; rfl

theorem Lexer.region_after_of_stays {bytes : List UInt8} {r : Region}
    (h : ∀ b ∈ bytes, ∀ s : Lexer, s.region = r → (s.step b).region = r) {s : Lexer}
    (hs : s.region = r) : (s.after bytes).region = r := by
  induction bytes generalizing s with
  | nil => exact hs
  | cons b bytes ih =>
    exact ih (fun c hc => h c (List.mem_cons_of_mem _ hc)) (h b List.mem_cons_self s hs)

namespace CheckReport

/-- There is nothing to say about newlines. -/
theorem diagnosticsOf_newlines {bytes : List UInt8} (h : ∀ b ∈ bytes, b = Byte.newline) :
    diagnosticsOf bytes = [] := by
  have hnone : ∀ {b : UInt8}, b ∈ bytes → b ≠ Byte.newline → False := fun hb hne => hne (h _ hb)
  have hstays : ∀ b ∈ bytes, ∀ s : Lexer, s.region = .code → (s.step b).region = .code := by
    intro b hb s hs
    rw [h b hb, Lexer.region_step, Lexer.move, hs]
    rfl
  rw [diagnosticsOf, List.append_eq_nil_iff, encodingWarnings_eq_nil_iff, braceErrors_eq_nil_iff]
  refine ⟨⟨fun hmark => ?_, fun hnull => hnone hnull (by decide)⟩, fun o ho => ?_, fun c hc => ?_,
    .inl (Lexer.region_after_of_stays hstays rfl)⟩
  · exact hnone (hmark.subset List.mem_cons_self) (by decide)
  · exact (hnone (List.mem_of_getElem? (Lexer.getElem?_of_role_openBrace ho)) (by decide)).elim
  · exact (hnone (List.mem_of_getElem? (Lexer.getElem?_of_role_closeBrace hc)) (by decide)).elim

/-- A text below the greatest length is past the limit only at the end of nothing but newlines. -/
theorem not_pastLimit_of_mem_diagnosticsOf (h : (Text.bytes text).length < maxOffset)
    {d : Diagnostic} (hd : d ∈ diagnosticsOf (Text.bytes text)) :
    ¬ PastLimit (Text.bytes text) d.offset := by
  have hle := (isBoundary_of_mem_diagnosticsOf hd).le_length
  rintro (⟨hend, -⟩ | hcount)
  · omega
  have hc : ((Text.bytes text).take d.offset).count Byte.newline ≤
      (Text.bytes text).count Byte.newline := (List.take_sublist _ _).count_le _
  have hl : (Text.bytes text).count Byte.newline ≤ (Text.bytes text).length :=
    List.count_le_length
  have hall : ∀ b ∈ Text.bytes text, Byte.newline = b := List.count_eq_length.mp (by omega)
  rw [diagnosticsOf_newlines fun b hb => (hall b hb).symm] at hd
  cases hd

theorem ofText_overflowsIff (colors : Bool) (path : String)
    (h : (Text.bytes text).length ≤ maxOffset) :
    OverflowsIff (ofText colors path text)
      (∃ d ∈ diagnosticsOf (Text.bytes text), PastLimit (Text.bytes text) d.offset) := by
  obtain ⟨r, hb, hfirst, hd⟩ := exists_findings h
  have hf : ∀ offset, r.firstNegative = some offset →
      (Source.ofText path text).position offset = .ok (Position.find (Text.bytes text) offset) := by
    intro offset ho
    have hmem := mem_strays.mp (List.mem_of_head? (hfirst ▸ ho))
    have hlt := (List.getElem?_eq_some_iff.mp (Lexer.getElem?_of_role_closeBrace hmem.1)).1
    rw [Source.position, Source.ofText, LineTable.position_of_le h (by omega),
      if_neg fun hend => by omega]
  rw [ofText_eq h hb hf, hd]
  refine (Rendering.diagnostics_overflowsIff colors path h fun d hmem => ?_).map _
  exact (isBoundary_of_mem_diagnosticsOf hmem).le_length

/-- What the text leaves open is reported at its end. -/
theorem exists_mem_diagnosticsOf {bytes : List UInt8}
    (h : (Lexer.start.after bytes).region.isOpenAtEnd = true) :
    ∃ d ∈ diagnosticsOf bytes, d.offset = bytes.length := by
  obtain ⟨d, hd⟩ : ∃ d, d ∈ endErrors bytes.length (Lexer.start.after bytes).region := by
    cases hr : (Lexer.start.after bytes).region with
    | code | lineComment => rw [hr] at h; cases h
    | blockComment | quoted | template => exact ⟨_, List.mem_singleton_self _⟩
  exact ⟨d, List.mem_append_right _ (List.mem_append_right _ hd), (of_mem_endErrors hd).2⟩

theorem region_after_literal (n : Nat) :
    (Lexer.start.after (Byte.backtick :: List.replicate n 0x61)).region = .template 0 := by
  rw [Lexer.after_cons]
  refine Lexer.region_after_of_stays (fun b hb s hs => ?_) rfl
  have ha : b ≠ Byte.backtick ∧ b ≠ Byte.openBrace := by
    rw [List.eq_of_mem_replicate hb]
    decide
  rw [Lexer.region_step, Lexer.move, hs]
  simp [Lexer.moveInTemplateText, Lexer.Move.single, ha]

/-- Up to the greatest length, counting places every offset, and the table gives the same place or, for
the end of the greatest text in one line, overflows. So a check overflows just if one of its diagnostics
is past the limit, and never on a text below the greatest length. -/
theorem overflows_at_limit (text : String) (h : (Text.bytes text).length ≤ maxOffset) :
    (∀ offset ≤ (Text.bytes text).length,
      (∃ p, Position.find (Text.bytes text) offset = some p) ∧
      (LineTable.ofBytes (Text.bytes text)).position offset =
        if offset = maxOffset ∧ Byte.newline ∉ Text.bytes text then .error .overflow
        else .ok (Position.find (Text.bytes text) offset)) ∧
    ∀ colors path,
      (ofText colors path text = .error .overflow ↔
        ∃ d ∈ diagnosticsOf (Text.bytes text), PastLimit (Text.bytes text) d.offset) ∧
      ((∀ d ∈ diagnosticsOf (Text.bytes text), ¬ PastLimit (Text.bytes text) d.offset) →
        ∃ checked, ofText colors path text = .ok checked) ∧
      ((Text.bytes text).length < maxOffset → ∃ checked, ofText colors path text = .ok checked) := by
  refine ⟨fun offset ho => ⟨Position.exists_find ho, LineTable.position_of_le h ho⟩, ?_⟩
  intro colors path
  have hcheck := ofText_overflowsIff colors path h
  have hcompletes : (∀ d ∈ diagnosticsOf (Text.bytes text), ¬ PastLimit (Text.bytes text) d.offset) →
      ∃ checked, ofText colors path text = .ok checked :=
    fun hd => hcheck.completes fun ⟨d, hmem, hpast⟩ => hd d hmem hpast
  exact ⟨hcheck.eq_error_iff, hcompletes,
    fun hlt => hcompletes fun d => not_pastLimit_of_mem_diagnosticsOf hlt⟩

/-- Behind a newline the end of a text of the greatest length has a column, and its check comes to an
end. -/
theorem completes_behind_newline :
    (Text.bytes ("\n`" ++ Text.letters (maxOffset - 2))).length = maxOffset ∧
      ∃ checked, ofText false "a.ts" ("\n`" ++ Text.letters (maxOffset - 2)) = .ok checked := by
  have hlength : (Text.bytes ("\n`" ++ Text.letters (maxOffset - 2))).length = maxOffset := by
    rw [Text.bytes_append_letters, List.length_append, List.length_replicate]
    rfl
  have hcount : (Text.bytes ("\n`" ++ Text.letters (maxOffset - 2))).count Byte.newline = 1 := by
    rw [Text.bytes_append_letters, List.count_append, List.count_replicate]
    rfl
  refine ⟨hlength, ?_⟩
  obtain ⟨-, hcompletes, -⟩ := (overflows_at_limit _ (Nat.le_of_eq hlength)).2 false "a.ts"
  refine hcompletes fun d _ => ?_
  rintro (⟨-, hline⟩ | hlines)
  · exact hline (List.count_pos_iff.mp (by omega))
  · have hle := (List.take_sublist d.offset
      (Text.bytes ("\n`" ++ Text.letters (maxOffset - 2)))).count_le Byte.newline
    have hmax : maxOffset = 4294967294 + 1 := rfl
    omega

/-- In one line, counting finds the end of such a text in the column of the greatest number, and the
table and the check overflow. -/
theorem overflow_of_longest_literal :
    (Text.bytes ("`" ++ Text.letters (maxOffset - 1))).length = maxOffset ∧
      Position.find (Text.bytes ("`" ++ Text.letters (maxOffset - 1))) maxOffset =
        some ⟨1, maxOffset⟩ ∧
      (LineTable.ofBytes (Text.bytes ("`" ++ Text.letters (maxOffset - 1)))).position maxOffset =
        .error .overflow ∧
      ofText false "a.ts" ("`" ++ Text.letters (maxOffset - 1)) = .error .overflow := by
  have hbytes : Text.bytes ("`" ++ Text.letters (maxOffset - 1)) =
      Stretch.expand [⟨Byte.backtick, 1⟩, ⟨0x61, maxOffset - 1⟩] := by
    rw [Text.bytes_append_letters]
    simp [Stretch.bytes]
    rfl
  have hlength : (Text.bytes ("`" ++ Text.letters (maxOffset - 1))).length = maxOffset := by
    rw [hbytes, ← Stretch.totalLength_eq]
    rfl
  refine ⟨hlength, ?_, ?_, ?_⟩
  · rw [hbytes, ← Position.findInStretches_eq]
    rfl
  · rw [hbytes, ← LineTable.ofStretches_eq]
    rfl
  · have hopen : (Lexer.start.after
        (Text.bytes ("`" ++ Text.letters (maxOffset - 1)))).region.isOpenAtEnd = true := by
      rw [Text.bytes_append_letters]
      exact congrArg Region.isOpenAtEnd (region_after_literal (maxOffset - 1))
    have hline : Byte.newline ∉ Text.bytes ("`" ++ Text.letters (maxOffset - 1)) := by
      rw [Text.bytes_append_letters, List.mem_append, List.mem_replicate]
      decide
    obtain ⟨d, hd, ho⟩ := exists_mem_diagnosticsOf hopen
    exact (ofText_overflowsIff false "a.ts" (by omega)).overflow
      ⟨d, hd, .inl ⟨ho.trans hlength, hline⟩⟩

end CheckReport

end

end BraceBalance
