import Mathlib.Data.List.Chain
import BraceBalance.Proofs.Boundaries
import BraceBalance.Proofs.Spans

/-!
# Where spans meet

A region begins and ends at a byte below 0x80, so it never begins or ends within a character. Two
spans that meet have different regions, unless the later is a comment, which begins with its slash. In
either case one of the two bytes where they meet is below 0x80, and so every span of a text is a text.
-/

namespace BraceBalance

namespace Lexer

variable {s : Lexer} {bytes : List UInt8}

theorem ne_of_le {b c : UInt8} (hb : 0x80 ≤ b.toNat) (hc : c.toNat < 0x80) : b ≠ c := by
  rintro rfl
  omega

/-- A byte of a longer character is no delimiter. -/
theorem region_step_of_le {b : UInt8} (h : 0x80 ≤ b.toNat) (s : Lexer) :
    (s.step b).region = s.region := by
  have hslash : b ≠ Byte.slash := ne_of_le h (by decide)
  have hstar : b ≠ Byte.star := ne_of_le h (by decide)
  have hsingle : b ≠ Byte.singleQuote := ne_of_le h (by decide)
  have hdouble : b ≠ Byte.doubleQuote := ne_of_le h (by decide)
  have hbacktick : b ≠ Byte.backtick := ne_of_le h (by decide)
  have hopen : b ≠ Byte.openBrace := ne_of_le h (by decide)
  have hclose : b ≠ Byte.closeBrace := ne_of_le h (by decide)
  have hnewline : b ≠ Byte.newline := ne_of_le h (by decide)
  rw [region_step, move]
  cases hs : s.region with
  | code => simp [moveInCode, Move.single, *]
  | lineComment => simp [moveInLineComment, Move.single, hnewline]
  | blockComment => simp [moveInBlockComment, Move.single, hslash]
  | quoted q => cases q <;> simp [moveInQuoted, Move.single, Quote.byte, hsingle, hdouble]
  | template depth =>
    cases depth with
    | zero => simp [moveInTemplateText, Move.single, hbacktick, hopen]
    | succ depth => simp [moveInPlaceholder, Move.single, hbacktick, hopen, hclose]

theorem region_label_of_le {b : UInt8} (h : 0x80 ≤ b.toNat) (s : Lexer) (offset : Nat) :
    (s.label b offset).region = s.region := by
  rw [label, region_step_of_le h, Label.regionOf, ite_self]

/-- Where the labels of two bytes differ in their region, one of the bytes is below 0x80. -/
theorem exists_lt_of_region_ne {n : Nat} {l l' : Label}
    (hl : (start.labels bytes 0)[n]? = some l) (hl' : (start.labels bytes 0)[n + 1]? = some l')
    (hne : l.region ≠ l'.region) :
    (∃ b, bytes[n]? = some b ∧ b.toNat < 0x80) ∨ ∃ b, bytes[n + 1]? = some b ∧ b.toNat < 0x80 := by
  rw [getElem?_labels] at hl hl'
  obtain ⟨b, hb, rfl⟩ := Option.map_eq_some_iff.mp hl
  obtain ⟨b', hb', rfl⟩ := Option.map_eq_some_iff.mp hl'
  rcases Nat.lt_or_ge b.toNat 0x80 with hlt | hge
  · exact .inl ⟨b, hb, hlt⟩
  rcases Nat.lt_or_ge b'.toNat 0x80 with hlt' | hge'
  · exact .inr ⟨b', hb', hlt'⟩
  · rw [region_label_of_le hge, region_label_of_le hge', after_take_of_getElem? _ hb,
      region_step_of_le hge] at hne
    exact absurd rfl hne

end Lexer

namespace Span

/-- Of two regions that meet, the later is another one or a comment. -/
def Parts (later earlier : Region) : Prop := later ≠ earlier ∨ later.isComment = true

/-- Wherever two of the spans meet, latest first, their regions are parted. -/
def Parted (spans : List Span) : Prop := (spans.map region).IsChain Parts

theorem Parted.nil : Parted [] := List.IsChain.nil

variable {spans spans' earlier : List Span} {last : Span} {l : Label}

theorem Parted.tail (h : Parted (last :: earlier)) : Parted earlier := List.IsChain.tail h

theorem Parted.cons (h : Parted spans) (r : Span)
    (hr : ∀ last, spans.head? = some last → Parts r.region last.region) : Parted (r :: spans) := by
  cases spans with
  | nil => exact .singleton _
  | cons last earlier => exact .cons_cons (hr last rfl) h

/-- Giving a byte back changes no region. -/
theorem Parted.giveBack (h : Parted (last :: earlier)) (hb : last.giveBack earlier = .ok spans) :
    Parted spans := by
  obtain ⟨stop, -, hb⟩ := exists_of_bind_eq_ok hb
  obtain rfl := Except.ok.inj hb
  split
  · exact h.tail
  · exact h

/-- A byte that begins a span of the region before it would have made that span longer. -/
theorem Parted.extend (h : Parted spans) (he : Span.extend spans l = .ok spans') :
    Parted spans' := by
  cases spans with
  | nil =>
    obtain ⟨stop, -, he⟩ := exists_of_bind_eq_ok he
    obtain rfl := Except.ok.inj he
    exact .singleton _
  | cons last earlier =>
    obtain ⟨stop, -, he⟩ := exists_of_bind_eq_ok he
    by_cases hr : last.region = l.region
    · rw [if_pos hr] at he
      obtain rfl := Except.ok.inj he
      exact h
    rw [if_neg hr] at he
    by_cases hc : l.region.isComment = true
    · rw [if_pos hc] at he
      obtain ⟨start, -, he⟩ := exists_of_bind_eq_ok he
      obtain ⟨rest, hrest, he⟩ := exists_of_bind_eq_ok he
      obtain rfl := Except.ok.inj he
      exact (h.giveBack hrest).cons _ fun _ _ => .inr hc
    · rw [if_neg hc] at he
      obtain rfl := Except.ok.inj he
      refine h.cons _ fun before hb => .inl ?_
      obtain rfl := Option.some.inj hb
      exact Ne.symm hr

theorem Parted.foldlM_extend {labels : List Label} (h : Parted spans)
    (hf : labels.foldlM Span.extend spans = .ok spans') : Parted spans' := by
  induction labels generalizing spans with
  | nil =>
    obtain rfl := Except.ok.inj hf
    exact h
  | cons l labels ih =>
    rw [List.foldlM_cons] at hf
    obtain ⟨next, hnext, hf⟩ := exists_of_bind_eq_ok hf
    exact ih (h.extend hnext) hf

/-- In order, latest last. -/
theorem Parted.parts (h : Parted spans) (before : List Span) (r s : Span) (after : List Span)
    (hs : spans.reverse = before ++ r :: s :: after) : Parts s.region r.region := by
  have hr : spans = after.reverse ++ s :: r :: before.reverse := by
    rw [← List.reverse_reverse spans, hs]
    simp
  rw [Parted, hr, List.map_append] at h
  exact List.isChain_iff_forall_rel_of_append_cons_cons.mp h rfl

end Span

theorem Buffer.parts_of_spans {b : Buffer} {spans : List Span} (h : b.spans = .ok spans)
    (before : List Span) (r s : Span) (after : List Span) (hs : spans = before ++ r :: s :: after) :
    Span.Parts s.region r.region := by
  obtain ⟨labels, -, h⟩ := exists_of_bind_eq_ok h
  rw [Span.ofLabels, map_eq_pure_bind] at h
  obtain ⟨latest, hf, h⟩ := exists_of_bind_eq_ok h
  obtain rfl := Except.ok.inj h
  exact (Span.Parted.nil.foldlM_extend hf).parts before r s after hs

section

variable {text : String} {r s : Span}

/-- Where two spans of a text meet, one character ends and another begins. -/
theorem Span.isBoundary_of_parts (hp : Parts s.region r.region) (hm : s.start = r.stop)
    (hr : r.start < r.stop) (hs : s.start < s.stop)
    (hlr : r.Labelled (Text.bytes text) (Lexer.start.labels (Text.bytes text) 0))
    (hls : s.Labelled (Text.bytes text) (Lexer.start.labels (Text.bytes text) 0)) :
    Text.IsBoundary text s.start := by
  obtain ⟨first, hfirst, -, hsr⟩ := hls s.start (Nat.le_refl _) hs
  by_cases hc : s.region.isComment = true
  · rw [if_pos ⟨hc, rfl⟩] at hsr
    exact Text.isBoundary_of_lt hsr.2 (by decide)
  rw [if_neg fun h => hc h.1] at hsr
  have hne : s.region ≠ r.region := hp.resolve_right hc
  obtain ⟨m, hstop⟩ : ∃ m, r.stop = m + 1 := ⟨r.stop - 1, by omega⟩
  obtain ⟨last, hlast, -, hrr⟩ := hlr m (by omega) (by omega)
  rw [hm, hstop] at hfirst ⊢
  by_cases hslash : r.region.isComment = true ∧ m = r.start
  · rw [if_pos hslash] at hrr
    exact Text.isBoundary_succ_of_lt hrr.2 (by decide)
  rw [if_neg hslash] at hrr
  rw [← hsr, ← hrr] at hne
  obtain ⟨b, hb, hlt⟩ | ⟨b, hb, hlt⟩ := Lexer.exists_lt_of_region_ne hlast hfirst hne.symm
  · exact Text.isBoundary_succ_of_lt hb hlt
  · exact Text.isBoundary_of_lt hb hlt

/-- Every span of a text is a text, and none is empty. -/
theorem Buffer.exists_spans_boundaries (h : (Text.bytes text).length ≤ maxOffset) :
    ∃ spans, (ofText text).spans = .ok spans ∧ ∀ r ∈ spans,
      Text.IsBoundary text r.start ∧ Text.IsBoundary text r.stop ∧ r.start < r.stop := by
  obtain ⟨spans, hspans, hp, hl, -⟩ := exists_covers h
  refine ⟨spans, hspans, ?_⟩
  have hmeet : ∀ before r s after, spans = before ++ r :: s :: after →
      Text.IsBoundary text s.start := by
    intro before r s after hs
    have hr : r ∈ spans := by simp [hs]
    have hs' : s ∈ spans := by simp [hs]
    exact Span.isBoundary_of_parts (parts_of_spans hspans before r s after hs)
      (hp.adjacent before r s after hs) (hp.start_lt_stop r hr) (hp.start_lt_stop s hs')
      (hl r hr) (hl s hs')
  intro r hr
  obtain ⟨before, after, hs⟩ := List.append_of_mem hr
  refine ⟨?_, ?_, hp.start_lt_stop r hr⟩
  · obtain rfl | ⟨before, q, rfl⟩ := List.eq_nil_or_concat before
    · rw [hp.starts_at_zero r (by rw [hs]; rfl)]
      exact Text.isBoundary_zero text
    · exact hmeet before q r after (by simp [hs])
  · cases after with
    | nil =>
      rw [hp.ends_at_length r (by simp [hs])]
      exact Text.isBoundary_length text
    | cons s after =>
      rw [← hp.adjacent before r s after hs]
      exact hmeet before r s after hs

end

end BraceBalance
