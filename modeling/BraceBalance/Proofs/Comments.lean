import BraceBalance.Proofs.Constructs
import BraceBalance.Proofs.Edges
import BraceBalance.Proofs.Lines
import BraceBalance.Proofs.Memory

/-!
# Comments

A comment's span is one comment, from its marker to what ends it. Labels alone do not tell where one
comment ends and the next of its kind begins, but the lexer does: it enters a comment only at the second
byte of a marker, and forgets that byte, so what ends the comment is read behind the marker. Comments of
one kind that stand one right behind the other keep spans of their own, and they are the only spans
that meet in one region.
-/

namespace BraceBalance

/-- The byte that begins a comment when it follows a slash. -/
def Region.opener? : Region → Option UInt8
  | .lineComment => some Byte.slash
  | .blockComment => some Byte.star
  | .code | .quoted _ | .template _ => none

theorem Region.isComment_of_opener? {region : Region} {b : UInt8} (h : region.opener? = some b) :
    region.isComment = true := by
  cases region with
  | lineComment | blockComment => rfl
  | code | quoted q | template depth => cases h

theorem Region.exists_opener? {region : Region} (h : region.isComment = true) :
    ∃ b, region.opener? = some b := by
  cases region with
  | lineComment | blockComment => exact ⟨_, rfl⟩
  | code | quoted q | template depth => cases h

namespace Lexer

variable {s : Lexer} {b : UInt8} {bytes : List UInt8}

/-- A comment begins at the second byte of its marker, and that byte is forgotten. -/
theorem step_into_comment (hs : s.region = .code) (hc : (s.step b).region.isComment = true) :
    (s.step b).region.opener? = some b ∧ s.step b = startIn (s.step b).region := by
  rw [step, move, hs] at hc ⊢
  grind [moveInCode, Move.single, Move.pair, Region.isComment, Region.opener?, startIn]

/-- A slash in code that is not the second byte of a marker can be the first. -/
theorem step_slash (hs : s.region = .code) (hl : s.last ≠ some Byte.slash) :
    (s.step Byte.slash).region = .code ∧ (s.step Byte.slash).last = some Byte.slash := by
  rw [step, move_slash hs, if_neg hl]
  exact ⟨rfl, rfl⟩

theorem region_step_of_opener {region : Region} (hs : s.region = .code)
    (hl : s.last = some Byte.slash) (hb : region.opener? = some b) : (s.step b).region = region := by
  rw [region_step, move, hs]
  cases region with
  | lineComment =>
    obtain rfl := Option.some.inj hb
    simp [moveInCode, hl, Move.pair]
  | blockComment =>
    obtain rfl := Option.some.inj hb
    simp [moveInCode, hl, Move.pair, Byte.slash, Byte.star]
  | code | quoted q | template depth => cases hb

/-- A byte read in a comment continues it or leads back to code. -/
theorem region_step_of_isComment (hs : s.region.isComment = true) (b : UInt8) :
    (s.step b).region = s.region ∨ (s.step b).region = .code := by
  have hm := moves_step s b
  generalize (s.step b).region = next, s.region = region, s.role b = role at hs hm
  cases hm with
  | stay => exact .inl rfl
  | leave => exact .inr rfl
  | plain | opened | closed | enter => cases hs
  | marker | plainInside | openedInside | closedInside | finished | abandoned => cases hs

theorem region_step_of_lineComment (hs : s.region = .lineComment) :
    (s.step b).region = .code ↔ b = Byte.newline := by
  rw [region_step, move, hs]
  by_cases hb : b = Byte.newline <;> simp [moveInLineComment, Move.single, hb]

theorem region_step_of_blockComment (hs : s.region = .blockComment) :
    (s.step b).region = .code ↔ s.last = some Byte.star ∧ b = Byte.slash := by
  rw [region_step, move, hs]
  by_cases hb : s.last = some Byte.star ∧ b = Byte.slash <;>
    simp [moveInBlockComment, Move.single, Move.pair, hb]

/-- In a block comment every byte is remembered but the one that ends it. -/
theorem last_step_of_blockComment (hs : s.region = .blockComment)
    (hn : (s.step b).region = .blockComment) : (s.step b).last = some b := by
  rw [region_step, move, hs] at hn
  rw [step, move, hs]
  grind [moveInBlockComment, Move.single, Move.pair]

/-- The byte that ends a comment does not begin the marker of another. -/
theorem last_step_ne_slash (hs : s.region.isComment = true) (hn : (s.step b).region = .code) :
    (s.step b).last ≠ some Byte.slash := by
  intro hl
  rw [(region_of_last_eq_slash hn hl).1] at hs
  cases hs

end Lexer

/-- The bytes from `start` up to `stop` are read as one comment: first its marker, and then bytes before
each of which the lexer is in the comment. -/
structure ReadAsComment (bytes : List UInt8) (region : Region) (start stop : Nat) : Prop where
  slash : bytes[start]? = some Byte.slash
  opener : bytes[start + 1]? = region.opener?
  begun : Lexer.start.after (bytes.take (start + 2)) = Lexer.startIn region
  inside : ∀ k, start + 2 + k < stop →
    (Lexer.start.after (bytes.take (start + 2 + k))).region = region

namespace Span

variable {bytes : List UInt8} {r : Span}

/-- A byte of a span and its label. -/
theorem Labelled.exists_byte (h : r.Labelled bytes (Lexer.start.labels bytes 0)) {o : Nat}
    (hlo : r.start ≤ o) (hhi : o < r.stop) : ∃ b, bytes[o]? = some b ∧
      if r.region.isComment = true ∧ o = r.start then
        ((Lexer.start.after (bytes.take o)).label b o).region = .code ∧ b = Byte.slash
      else ((Lexer.start.after (bytes.take o)).label b o).region = r.region := by
  obtain ⟨l, hl, -, hregion⟩ := h o hlo hhi
  rw [Lexer.getElem?_labels, Nat.zero_add] at hl
  obtain ⟨b, hb, rfl⟩ := Option.map_eq_some_iff.mp hl
  refine ⟨b, hb, ?_⟩
  rw [hb, Option.some.injEq] at hregion
  exact hregion

/-- The first byte of a span is labelled as no comment. -/
theorem Labelled.isComment_label (h : r.Labelled bytes (Lexer.start.labels bytes 0))
    (hr : r.start < r.stop) : ∃ b, bytes[r.start]? = some b ∧
      ((Lexer.start.after (bytes.take r.start)).label b r.start).region.isComment = false := by
  obtain ⟨b, hb, hlabel⟩ := h.exists_byte (Nat.le_refl _) hr
  refine ⟨b, hb, ?_⟩
  by_cases hc : r.region.isComment = true
  · rw [if_pos ⟨hc, rfl⟩] at hlabel
    rw [hlabel.1]
    rfl
  · rw [if_neg fun hn => hc hn.1] at hlabel
    rw [hlabel]
    simpa using hc

/-- The lexer is in no comment where a span starts. -/
theorem Labelled.isComment_before (h : r.Labelled bytes (Lexer.start.labels bytes 0))
    (hr : r.start < r.stop) :
    (Lexer.start.after (bytes.take r.start)).region.isComment = false := by
  obtain ⟨b, -, hlabel⟩ := h.isComment_label hr
  by_cases hs : (Lexer.start.after (bytes.take r.start)).region = .code
  · rw [hs]
    rfl
  · rwa [Lexer.region_label_of_ne hs] at hlabel

/-- A comment's span is read as one comment: another one in it would begin with a byte that is labelled
as code. -/
theorem Labelled.readAsComment (h : r.Labelled bytes (Lexer.start.labels bytes 0))
    (hc : r.region.isComment = true) (hr : r.start + 1 < r.stop) :
    ReadAsComment bytes r.region r.start r.stop := by
  have hlabel : ∀ o, r.start < o → o < r.stop → ∃ b, bytes[o]? = some b ∧
      ((Lexer.start.after (bytes.take o)).label b o).region = r.region := by
    intro o hlo hhi
    obtain ⟨b, hb, hregion⟩ := h.exists_byte (Nat.le_of_lt hlo) hhi
    rw [if_neg fun hn => Nat.ne_of_gt hlo hn.2] at hregion
    exact ⟨b, hb, hregion⟩
  obtain ⟨b, hslash, hcode⟩ := h.exists_byte (Nat.le_refl _) (show r.start < r.stop by omega)
  rw [if_pos ⟨hc, rfl⟩] at hcode
  obtain ⟨hcode, rfl⟩ := hcode
  obtain ⟨b, hopener, hregion⟩ := hlabel (r.start + 1) (Nat.lt_succ_self _) hr
  have hbefore : (Lexer.start.after (bytes.take (r.start + 1))).region = .code := by
    rw [Lexer.after_take_of_getElem? _ hslash]
    exact (Lexer.region_of_label_eq_code hcode).2
  rw [Lexer.region_label_of_code hbefore] at hregion
  obtain ⟨hmarker, hbegun⟩ := Lexer.step_into_comment hbefore (hregion ▸ hc)
  rw [hregion] at hmarker hbegun
  rw [← Lexer.after_take_of_getElem? _ hopener] at hbegun
  refine ⟨hslash, hopener.trans hmarker.symm, hbegun, ?_⟩
  intro k hk
  induction k with
  | zero => exact congrArg Lexer.region hbegun
  | succ k ih =>
    have hin := ih (by omega)
    obtain ⟨b, hb, -⟩ := hlabel (r.start + 2 + k) (by omega) (by omega)
    obtain ⟨b', -, hregion'⟩ := hlabel (r.start + 2 + (k + 1)) (by omega) hk
    rw [← Nat.add_assoc, Lexer.after_take_of_getElem? _ hb] at hregion' ⊢
    obtain hstay | hleave := Lexer.region_step_of_isComment (hin ▸ hc) b
    · exact hstay.trans hin
    · obtain hsame | ⟨-, hlast⟩ := Lexer.region_of_isComment_label (hregion' ▸ hc)
      · exact hsame.trans hregion'
      · exact absurd hlast (Lexer.last_step_ne_slash (hin ▸ hc) hleave)

/-- The bytes of a span. -/
def slice (bytes : List UInt8) (r : Span) : List UInt8 := (bytes.take r.stop).drop r.start

/-- A span with the bytes of one line comment: a marker, and no newline but at its end, which is there
unless the text ends first. So it is on one line. -/
structure IsLineComment (bytes : List UInt8) (r : Span) : Prop where
  marker : [Byte.slash, Byte.slash] <+: r.slice bytes
  newline_last : ∀ i, (r.slice bytes)[i]? = some Byte.newline → i + 1 = (r.slice bytes).length
  ends : (r.slice bytes).getLast? = some Byte.newline ∨ r.stop = bytes.length
  line : ∃ line, ∀ o, r.start ≤ o → o < r.stop →
    ∃ column, Position.find bytes o = some ⟨line, column⟩

/-- A block comment ends at `i` of its bytes: behind its marker. -/
def EndsAt (bytes : List UInt8) (i : Nat) : Prop :=
  2 ≤ i ∧ OccursAt [Byte.star, Byte.slash] bytes i

/-- A span with the bytes of one block comment: a marker, and the first end behind it, which is the end
of the span unless there is none and the text ends first. -/
structure IsBlockComment (bytes : List UInt8) (r : Span) : Prop where
  marker : [Byte.slash, Byte.star] <+: r.slice bytes
  ends : (∃ i, i + 2 = (r.slice bytes).length ∧ FirstOf (EndsAt (r.slice bytes)) (some i)) ∨
    FirstOf (EndsAt (r.slice bytes)) none ∧ r.stop = bytes.length

theorem length_slice (h : r.stop ≤ bytes.length) : (r.slice bytes).length = r.stop - r.start := by
  rw [slice, List.length_drop, List.length_take, Nat.min_eq_left h]

theorem getElem?_slice {i : Nat} (hi : r.start + i < r.stop) :
    (r.slice bytes)[i]? = bytes[r.start + i]? := by
  rw [slice, List.getElem?_drop, List.getElem?_take_of_lt hi]

end Span

section

variable {bytes : List UInt8}

theorem pair_prefix_iff {a b : UInt8} :
    [a, b] <+: bytes ↔ bytes[0]? = some a ∧ bytes[1]? = some b := by
  rw [List.prefix_iff_getElem?]
  constructor
  · intro h
    exact ⟨h 0 (by simp), h 1 (by simp)⟩
  · rintro ⟨ha, hb⟩ i hi
    match i, hi with
    | 0, _ => exact ha
    | 1, _ => exact hb

theorem endsAt_iff {i : Nat} :
    Span.EndsAt bytes i ↔
      2 ≤ i ∧ bytes[i]? = some Byte.star ∧ bytes[i + 1]? = some Byte.slash := by
  rw [Span.EndsAt, OccursAt, pair_prefix_iff, List.getElem?_drop, List.getElem?_drop]
  refine and_congr_right fun _ => and_iff_right_of_imp fun h => ?_
  exact Nat.le_of_lt (List.getElem?_eq_some_iff.mp h.1).1

/-- Nothing is added to a count where nothing that counts is passed. -/
theorem count_take_add {b : UInt8} {start : Nat} (k : Nat)
    (h : ∀ i < k, bytes[start + i]? ≠ some b) :
    (bytes.take (start + k)).count b = (bytes.take start).count b := by
  induction k with
  | zero => rfl
  | succ k ih =>
    have hk := h k (Nat.lt_succ_self k)
    rw [← Nat.add_assoc, List.take_add_one, List.count_append, ih fun i hi => h i (by omega)]
    cases hb : bytes[start + k]? with
    | none => rfl
    | some c =>
      have hne : c ≠ b := fun he => hk (hb.trans (congrArg some he))
      simp [hne]

end

namespace ReadAsComment

variable {bytes : List UInt8} {region : Region} {start stop : Nat}

theorem region_at_marker (h : ReadAsComment bytes region start stop) :
    (Lexer.start.after (bytes.take (start + 2))).region = region :=
  congrArg Lexer.region h.begun

/-- If the lexer is in no comment behind the last byte, then that byte stands behind the marker and
ends the comment. -/
theorem exists_last (h : ReadAsComment bytes region start stop) (hc : region.isComment = true)
    (hlt : start + 1 < stop) (hle : stop ≤ bytes.length)
    (hend : (Lexer.start.after (bytes.take stop)).region.isComment = false) :
    ∃ k b, start + 2 + k + 1 = stop ∧ bytes[start + 2 + k]? = some b ∧
      ((Lexer.start.after (bytes.take (start + 2 + k))).step b).region = .code := by
  have hne : start + 2 ≠ stop := by
    rintro rfl
    rw [h.region_at_marker, hc] at hend
    cases hend
  obtain ⟨k, rfl⟩ := Nat.exists_eq_add_of_le (show start + 2 + 1 ≤ stop by omega)
  have hb := List.getElem?_eq_getElem (show start + 2 + k < bytes.length by omega)
  have hin := h.inside k (by omega)
  rw [Nat.add_right_comm, Lexer.after_take_of_getElem? _ hb] at hend
  refine ⟨k, _, Nat.add_right_comm .., hb, ?_⟩
  obtain hstay | hleave := Lexer.region_step_of_isComment (hin ▸ hc) bytes[start + 2 + k]
  · rw [hstay, hin, hc] at hend
    cases hend
  · exact hleave

/-- A byte that leads out of the comment is the last one. -/
theorem eq_stop_of_leaves (h : ReadAsComment bytes region start stop)
    (hc : region.isComment = true) {k : Nat} {b : UInt8} (hk : start + 2 + k < stop)
    (hb : bytes[start + 2 + k]? = some b)
    (hleave : ((Lexer.start.after (bytes.take (start + 2 + k))).step b).region = .code) :
    start + 2 + k + 1 = stop := by
  refine Nat.le_antisymm hk (Nat.le_of_not_lt fun hlt => ?_)
  have hin := h.inside (k + 1) hlt
  rw [← Nat.add_assoc, Lexer.after_take_of_getElem? _ hb, hleave] at hin
  rw [← hin] at hc
  cases hc

theorem newline_last (h : ReadAsComment bytes .lineComment start stop) {o : Nat} (hlo : start ≤ o)
    (hhi : o < stop) (hb : bytes[o]? = some Byte.newline) : o + 1 = stop := by
  have hslash : start ≠ o := by
    rintro rfl
    cases h.slash.symm.trans hb
  have hopener : start + 1 ≠ o := by
    rintro rfl
    cases h.opener.symm.trans hb
  obtain ⟨k, rfl⟩ := Nat.exists_eq_add_of_le (show start + 2 ≤ o by omega)
  exact h.eq_stop_of_leaves rfl hhi hb ((Lexer.region_step_of_lineComment (h.inside k hhi)).mpr rfl)

/-- Behind the marker the byte before is remembered. -/
theorem last_eq (h : ReadAsComment bytes .blockComment start stop) {k : Nat} {b : UInt8}
    (hk : start + 2 + k + 1 < stop) (hb : bytes[start + 2 + k]? = some b) :
    (Lexer.start.after (bytes.take (start + 2 + k + 1))).last = some b := by
  have hin := h.inside (k + 1) hk
  rw [← Nat.add_assoc, Lexer.after_take_of_getElem? _ hb] at hin
  rw [Lexer.after_take_of_getElem? _ hb]
  exact Lexer.last_step_of_blockComment (h.inside k (by omega)) hin

/-- A star and a slash behind the marker are the last two bytes. -/
theorem eq_stop_of_pair (h : ReadAsComment bytes .blockComment start stop) {k : Nat}
    (hk : start + 2 + k + 1 < stop) (hstar : bytes[start + 2 + k]? = some Byte.star)
    (hslash : bytes[start + 2 + k + 1]? = some Byte.slash) : start + 2 + k + 2 = stop :=
  h.eq_stop_of_leaves rfl hk hslash ((Lexer.region_step_of_blockComment (h.inside (k + 1) hk)).mpr
    ⟨h.last_eq hk hstar, rfl⟩)

/-- The two bytes that lead out of a block comment stand behind its marker. -/
theorem exists_pair (h : ReadAsComment bytes .blockComment start stop) (hlt : start + 1 < stop)
    (hle : stop ≤ bytes.length)
    (hend : (Lexer.start.after (bytes.take stop)).region.isComment = false) :
    ∃ k, start + 2 + k + 2 = stop ∧ bytes[start + 2 + k]? = some Byte.star ∧
      bytes[start + 2 + k + 1]? = some Byte.slash := by
  obtain ⟨k, b, hk, hb, hleave⟩ := h.exists_last rfl hlt hle hend
  obtain ⟨hlast, rfl⟩ := (Lexer.region_step_of_blockComment (h.inside k (by omega))).mp hleave
  cases k with
  | zero =>
    rw [Nat.add_zero, h.begun] at hlast
    cases hlast
  | succ k =>
    have hstar := List.getElem?_eq_getElem (show start + 2 + k < bytes.length by omega)
    rw [← Nat.add_assoc, h.last_eq (by omega) hstar] at hlast
    exact ⟨k, hk, hstar.trans hlast, hb⟩

end ReadAsComment

namespace Span

variable {bytes : List UInt8} {r : Span} {spans : List Span}

/-- A comment's span begins with the comment's marker. -/
theorem marker_slice {region : Region} {b : UInt8} (h : ReadAsComment bytes region r.start r.stop)
    (hlt : r.start + 1 < r.stop) (hb : region.opener? = some b) :
    [Byte.slash, b] <+: r.slice bytes := by
  apply pair_prefix_iff.mpr
  constructor
  · exact (getElem?_slice (by omega)).trans h.slash
  · exact (getElem?_slice hlt).trans (h.opener.trans hb)

/-- No byte of a line comment but the last is a newline, so all of them are on one line. -/
theorem exists_line (h : ReadAsComment bytes .lineComment r.start r.stop)
    (hle : r.stop ≤ bytes.length) : ∃ line, ∀ o, r.start ≤ o → o < r.stop →
      ∃ column, Position.find bytes o = some ⟨line, column⟩ := by
  refine ⟨saturate ((bytes.take r.start).count Byte.newline + 1), ?_⟩
  intro o hlo hhi
  obtain ⟨k, rfl⟩ := Nat.exists_eq_add_of_le hlo
  have hcount : (bytes.take (r.start + k)).count Byte.newline =
      (bytes.take r.start).count Byte.newline := by
    refine count_take_add k fun i hi hb => ?_
    have hstop := h.newline_last (Nat.le_add_right r.start i) (by omega) hb
    omega
  rw [Position.find, if_pos (by omega)]
  simp only [hcount]
  exact ⟨_, rfl⟩

theorem isLineComment (h : ReadAsComment bytes .lineComment r.start r.stop)
    (hlt : r.start + 1 < r.stop) (hle : r.stop ≤ bytes.length)
    (hend : r.stop = bytes.length ∨
      (Lexer.start.after (bytes.take r.stop)).region.isComment = false) :
    r.IsLineComment bytes where
  marker := marker_slice h hlt rfl
  newline_last := by
    intro i hi
    have hlength := (List.getElem?_eq_some_iff.mp hi).1
    rw [length_slice hle] at hlength ⊢
    rw [getElem?_slice (by omega)] at hi
    have hstop := h.newline_last (Nat.le_add_right r.start i) (by omega) hi
    omega
  ends := by
    obtain hlength | hout := hend
    · exact .inr hlength
    · obtain ⟨k, b, hk, hb, hleave⟩ := h.exists_last rfl hlt hle hout
      obtain rfl := (Lexer.region_step_of_lineComment (h.inside k (by omega))).mp hleave
      refine .inl ?_
      rw [List.getLast?_eq_getElem?, length_slice hle, getElem?_slice (by omega),
        show r.start + (r.stop - r.start - 1) = r.start + 2 + k by omega, hb]
  line := exists_line h hle

/-- Where a block comment's span has an end, the span ends. -/
theorem eq_length_of_endsAt (h : ReadAsComment bytes .blockComment r.start r.stop)
    (hle : r.stop ≤ bytes.length) {i : Nat} (hi : EndsAt (r.slice bytes) i) :
    i + 2 = (r.slice bytes).length := by
  obtain ⟨htwo, hstar, hslash⟩ := endsAt_iff.mp hi
  have hlength := (List.getElem?_eq_some_iff.mp hslash).1
  obtain ⟨k, rfl⟩ := Nat.exists_eq_add_of_le htwo
  rw [length_slice hle] at hlength ⊢
  rw [getElem?_slice (by omega)] at hstar hslash
  simp only [← Nat.add_assoc] at hstar hslash
  have hstop := h.eq_stop_of_pair (by omega) hstar hslash
  omega

theorem exists_endsAt (h : ReadAsComment bytes .blockComment r.start r.stop)
    (hlt : r.start + 1 < r.stop) (hle : r.stop ≤ bytes.length)
    (hout : (Lexer.start.after (bytes.take r.stop)).region.isComment = false) :
    ∃ i, EndsAt (r.slice bytes) i := by
  obtain ⟨k, hk, hstar, hslash⟩ := h.exists_pair hlt hle hout
  refine ⟨2 + k, endsAt_iff.mpr ⟨Nat.le_add_right 2 k, ?_, ?_⟩⟩
  · rw [getElem?_slice (by omega), ← Nat.add_assoc, hstar]
  · rw [getElem?_slice (by omega), ← Nat.add_assoc, ← Nat.add_assoc, hslash]

theorem isBlockComment (h : ReadAsComment bytes .blockComment r.start r.stop)
    (hlt : r.start + 1 < r.stop) (hle : r.stop ≤ bytes.length)
    (hend : r.stop = bytes.length ∨
      (Lexer.start.after (bytes.take r.stop)).region.isComment = false) :
    r.IsBlockComment bytes where
  marker := marker_slice h hlt rfl
  ends := by
    by_cases hex : ∃ i, EndsAt (r.slice bytes) i
    · obtain ⟨i, hi⟩ := hex
      have hlength := eq_length_of_endsAt h hle hi
      refine .inl ⟨i, hlength, hi, fun j hj hends => ?_⟩
      have := eq_length_of_endsAt h hle hends
      omega
    · have hlength := hend.resolve_right fun hout => hex (exists_endsAt h hlt hle hout)
      exact .inr ⟨not_exists.mp hex, hlength⟩

namespace Covers

theorem stop_le_length (h : Covers spans bytes) (hr : r ∈ spans) : r.stop ≤ bytes.length := by
  have hlt := h.partition.start_lt_stop r hr
  obtain ⟨b, hb, -⟩ := (h.labelled r hr).exists_byte (o := r.stop - 1) (by omega) (by omega)
  have := (List.getElem?_eq_some_iff.mp hb).1
  omega

theorem readAsComment (h : Covers spans bytes) (hr : r ∈ spans) (hc : r.region.isComment = true) :
    ReadAsComment bytes r.region r.start r.stop :=
  (h.labelled r hr).readAsComment hc (h.comment_length r hr hc)

theorem isComment_before (h : Covers spans bytes) (hr : r ∈ spans) :
    (Lexer.start.after (bytes.take r.start)).region.isComment = false :=
  (h.labelled r hr).isComment_before (h.partition.start_lt_stop r hr)

/-- A span ends with the text, or another one follows. -/
theorem eq_length_or_exists (h : Covers spans bytes) (hr : r ∈ spans) :
    r.stop = bytes.length ∨ ∃ s ∈ spans, s.start = r.stop := by
  obtain ⟨before, after, hs⟩ := List.append_of_mem hr
  cases after with
  | nil => exact .inl (h.partition.ends_at_length r (by simp [hs]))
  | cons s after => exact .inr ⟨s, by simp [hs], h.partition.adjacent before r s after hs⟩

end Covers

end Span

namespace Buffer

/-- The span of a comment is one comment, whole: it begins with the marker of the comment, and what
would end the comment is nowhere in it but at its end, where it is unless the text ends first. -/
theorem comment_spans_whole (bytes : List UInt8) (h : bytes.length ≤ maxOffset) :
    ∃ spans, (ofBytes bytes).spans = .ok spans ∧ ∀ r ∈ spans,
      (r.region = .lineComment → r.IsLineComment bytes) ∧
      (r.region = .blockComment → r.IsBlockComment bytes) := by
  obtain ⟨spans, hspans, hcovers⟩ := exists_covers h
  refine ⟨spans, hspans, fun r hr => ?_⟩
  have hend : r.stop = bytes.length ∨
      (Lexer.start.after (bytes.take r.stop)).region.isComment = false := by
    obtain hlength | ⟨s, hs, hstart⟩ := hcovers.eq_length_or_exists hr
    · exact .inl hlength
    · exact .inr (hstart ▸ hcovers.isComment_before hs)
  constructor
  · intro hregion
    have hc : r.region.isComment = true := by rw [hregion]; rfl
    exact Span.isLineComment (hregion ▸ hcovers.readAsComment hr hc)
      (hcovers.comment_length r hr hc) (hcovers.stop_le_length hr) hend
  · intro hregion
    have hc : r.region.isComment = true := by rw [hregion]; rfl
    exact Span.isBlockComment (hregion ▸ hcovers.readAsComment hr hc)
      (hcovers.comment_length r hr hc) (hcovers.stop_le_length hr) hend

/-- A line comment, a block comment and another one right behind it that is never closed. -/
theorem whole_of_adjacent_comments :
    Span.IsLineComment (Text.bytes "//*\n/*/*//*") ⟨.lineComment, 0, 4⟩ ∧
      Span.IsBlockComment (Text.bytes "//*\n/*/*//*") ⟨.blockComment, 4, 9⟩ ∧
      Span.IsBlockComment (Text.bytes "//*\n/*/*//*") ⟨.blockComment, 9, 11⟩ := by
  obtain ⟨spans, hspans, h⟩ := comment_spans_whole (Text.bytes "//*\n/*/*//*") (by decide)
  obtain rfl : [⟨.lineComment, 0, 4⟩, ⟨.blockComment, 4, 9⟩, ⟨.blockComment, 9, 11⟩] = spans :=
    Except.ok.inj hspans
  exact ⟨(h _ (by simp)).1 rfl, (h _ (by simp)).2 rfl, (h _ (by simp)).2 rfl⟩

end Buffer

namespace Span.Covers

variable {bytes : List UInt8} {spans before after : List Span} {r s : Span}

/-- A comment that follows another span begins where that one stops. -/
theorem marker_of_isComment (h : Covers spans bytes) (hs : spans = before ++ r :: s :: after)
    (hc : s.region.isComment = true) :
    ∃ b, s.region.opener? = some b ∧ [Byte.slash, b] <+: bytes.drop r.stop := by
  have hread := h.readAsComment (r := s) (by simp [hs]) hc
  obtain ⟨b, hb⟩ := Region.exists_opener? hc
  refine ⟨b, hb, pair_prefix_iff.mpr ?_⟩
  rw [List.getElem?_drop, List.getElem?_drop, ← h.partition.adjacent before r s after hs]
  exact ⟨hread.slash, hread.opener.trans hb⟩

/-- Behind a comment the lexer is in code, and takes no byte of the comment for the first of a marker. -/
theorem code_after_comment (h : Covers spans bytes) (hs : spans = before ++ r :: s :: after)
    (hc : r.region.isComment = true) :
    (Lexer.start.after (bytes.take s.start)).region = .code ∧
      (Lexer.start.after (bytes.take s.start)).last ≠ some Byte.slash := by
  have hr : r ∈ spans := by simp [hs]
  have hread := h.readAsComment hr hc
  have hout := h.isComment_before (r := s) (by simp [hs])
  rw [h.partition.adjacent before r s after hs] at hout ⊢
  obtain ⟨k, b, hk, hb, hleave⟩ :=
    hread.exists_last hc (h.comment_length r hr hc) (h.stop_le_length hr) hout
  rw [← hk, Lexer.after_take_of_getElem? _ hb]
  exact ⟨hleave, Lexer.last_step_ne_slash (hread.inside k (by omega) ▸ hc) hleave⟩

/-- A marker right behind a comment begins a comment of its kind: its second byte is labelled as that
comment, so no span starts there. -/
theorem region_of_marker (h : Covers spans bytes) (hs : spans = before ++ r :: s :: after)
    (hc : r.region.isComment = true) {b : UInt8} {region : Region} (hb : region.opener? = some b)
    (hpair : [Byte.slash, b] <+: bytes.drop r.stop) : s.region = region := by
  have hmem : s ∈ spans := by simp [hs]
  have hlt := h.partition.start_lt_stop s hmem
  rw [← h.partition.adjacent before r s after hs, pair_prefix_iff, List.getElem?_drop,
    List.getElem?_drop, Nat.add_zero] at hpair
  obtain ⟨hslash, hopener⟩ := hpair
  obtain ⟨hcode, hlast⟩ := h.code_after_comment hs hc
  have hmarker := Lexer.step_slash hcode hlast
  rw [← Lexer.after_take_of_getElem? _ hslash] at hmarker
  have hlabel : ((Lexer.start.after (bytes.take (s.start + 1))).label b (s.start + 1)).region =
      region := by
    rw [Lexer.region_label_of_code hmarker.1]
    exact Lexer.region_step_of_opener hmarker.1 hmarker.2 hb
  rcases Nat.lt_or_ge (s.start + 1) s.stop with hin | hout
  · obtain ⟨b', hb', hregion⟩ := (h.labelled s hmem).exists_byte (Nat.le_succ s.start) hin
    obtain rfl := Option.some.inj (hopener.symm.trans hb')
    rw [if_neg (by omega)] at hregion
    exact hregion.symm.trans hlabel
  · obtain hlength | ⟨t, ht, hstart⟩ := h.eq_length_or_exists hmem
    · have := (List.getElem?_eq_some_iff.mp hopener).1
      omega
    · obtain ⟨b', hb', hno⟩ := (h.labelled t ht).isComment_label (h.partition.start_lt_stop t ht)
      rw [hstart, show s.stop = s.start + 1 by omega] at hb' hno
      obtain rfl := Option.some.inj (hopener.symm.trans hb')
      rw [hlabel, Region.isComment_of_opener? hb] at hno
      cases hno

end Span.Covers

namespace Buffer

/-- Two spans that meet are in different regions, except where the marker of a comment follows right
behind a comment of the same kind. -/
theorem region_eq_iff_marker (bytes : List UInt8) (h : bytes.length ≤ maxOffset) :
    ∃ spans, (ofBytes bytes).spans = .ok spans ∧
      ∀ before r s after, spans = before ++ r :: s :: after →
        (r.region = s.region ↔
          ∃ b, r.region.opener? = some b ∧ [Byte.slash, b] <+: bytes.drop r.stop) := by
  obtain ⟨spans, hspans, hcovers⟩ := exists_covers h
  refine ⟨spans, hspans, fun before r s after hs => ?_⟩
  constructor
  · intro heq
    have hc := (parts_of_spans hspans before r s after hs).resolve_left fun hne => hne heq.symm
    rw [heq]
    exact hcovers.marker_of_isComment hs hc
  · rintro ⟨b, hb, hpair⟩
    exact (hcovers.region_of_marker hs (Region.isComment_of_opener? hb) hb hpair).symm

/-- A block comment is followed by another one, and that one by a line comment. -/
theorem marker_between_adjacent_comments :
    (∃ b, Region.opener? .blockComment = some b ∧
      [Byte.slash, b] <+: (Text.bytes "/**//**///\n").drop 4) ∧
    ¬ ∃ b, Region.opener? .blockComment = some b ∧
      [Byte.slash, b] <+: (Text.bytes "/**//**///\n").drop 8 := by
  obtain ⟨spans, hspans, h⟩ := region_eq_iff_marker (Text.bytes "/**//**///\n") (by decide)
  obtain rfl : [⟨.blockComment, 0, 4⟩, ⟨.blockComment, 4, 8⟩, ⟨.lineComment, 8, 11⟩] = spans :=
    Except.ok.inj hspans
  constructor
  · exact (h [] _ _ [_] rfl).mp rfl
  · exact fun hmarker => nomatch (h [_] _ _ [] rfl).mpr hmarker

/-- The slash between the two comments is taken back by the second, and nothing is left that would keep
them apart. -/
theorem spans_meet_in_one_region :
    ¬ ∀ text : String, (Text.bytes text).length ≤ maxOffset →
      ∀ spans, (ofText text).spans = .ok spans →
        ∀ before r s after, spans = before ++ r :: s :: after → r.region ≠ s.region := by
  intro h
  exact h "/**//**/" (by decide) [⟨.blockComment, 0, 4⟩, ⟨.blockComment, 4, 8⟩] rfl [] _ _ [] rfl rfl

end Buffer

end BraceBalance
