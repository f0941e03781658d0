import BraceBalance.Span
import BraceBalance.Proofs.Reading

/-!
# Spans

The spans of a text cut it without gaps, and each of them agrees with the labels of its bytes. When a
comment is recognised its first slash is already part of the span before, so that span has to give a
byte back. This is sound because of what the lexer labels: a comment begins only right after a slash
labelled as code, so the span before is code and ends with that slash.
-/

namespace BraceBalance

namespace Lexer

variable {s : Lexer} {b : UInt8}

/-- The label of `b`, read in state `s`. -/
def label (s : Lexer) (b : UInt8) (offset : Nat) : Label :=
  ⟨offset, Label.regionOf s.region (s.step b).region, s.role b⟩

/-- The labels of bytes that start at `offset`, with no bound on the placeholder depth. -/
def labels (s : Lexer) : List UInt8 → Nat → List Label
  | [], _ => []
  | b :: bytes, offset => s.label b offset :: (s.step b).labels bytes (offset + 1)

@[simp] theorem labels_nil (s : Lexer) (offset : Nat) : s.labels [] offset = [] := rfl

@[simp] theorem labels_cons (s : Lexer) (b : UInt8) (bytes : List UInt8) (offset : Nat) :
    s.labels (b :: bytes) offset = s.label b offset :: (s.step b).labels bytes (offset + 1) := rfl

@[simp] theorem length_labels (s : Lexer) (bytes : List UInt8) (offset : Nat) :
    (s.labels bytes offset).length = bytes.length := by
  induction bytes generalizing s offset with
  | nil => rfl
  | cons b bytes ih => simp [ih]

theorem getElem?_labels (s : Lexer) (bytes : List UInt8) (offset n : Nat) :
    (s.labels bytes offset)[n]? =
      bytes[n]?.map ((s.after (bytes.take n)).label · (offset + n)) := by
  induction bytes generalizing s offset n with
  | nil => simp
  | cons b bytes ih =>
    cases n with
    | zero => rfl
    | succ n => simp [ih, Nat.add_assoc, Nat.add_comm 1]

theorem mem_labels_iff {bytes : List UInt8} {l : Label} :
    l ∈ start.labels bytes 0 ↔
      ∃ b, bytes[l.offset]? = some b ∧ (start.after (bytes.take l.offset)).label b l.offset = l := by
  rw [List.mem_iff_getElem?]
  simp only [getElem?_labels, Option.map_eq_some_iff, Nat.zero_add]
  constructor
  · rintro ⟨n, b, hb, rfl⟩
    exact ⟨b, hb, rfl⟩
  · rintro ⟨b, hb, hl⟩
    exact ⟨l.offset, b, hb, hl⟩

/-- The byte at an offset is labelled with its role. -/
theorem exists_label_iff {bytes : List UInt8} {n : Nat} {r : Role} :
    (∃ l ∈ start.labels bytes 0, l.offset = n ∧ l.role = r) ↔ (start.roles bytes)[n]? = some r := by
  rw [getElem?_roles, Option.map_eq_some_iff]
  constructor
  · rintro ⟨l, hl, rfl, rfl⟩
    obtain ⟨b, hb, hlabel⟩ := mem_labels_iff.mp hl
    exact ⟨b, hb, congrArg Label.role hlabel⟩
  · rintro ⟨b, hb, rfl⟩
    exact ⟨(start.after (bytes.take n)).label b n, mem_labels_iff.mpr ⟨b, hb, rfl⟩, rfl, rfl⟩

theorem region_label_of_code (hs : s.region = .code) (b : UInt8) (offset : Nat) :
    (s.label b offset).region = (s.step b).region := if_pos hs

theorem region_label_of_ne (hs : s.region ≠ .code) (b : UInt8) (offset : Nat) :
    (s.label b offset).region = s.region := if_neg hs

/-- A byte labelled as code is read in code and leaves the lexer there. -/
theorem region_of_label_eq_code {offset : Nat} (h : (s.label b offset).region = .code) :
    s.region = .code ∧ (s.step b).region = .code := by
  by_cases hs : s.region = .code
  · exact ⟨hs, (region_label_of_code hs b offset).symm.trans h⟩
  · exact absurd ((region_label_of_ne hs b offset).symm.trans h) hs

/-- A byte labelled as a comment continues the comment, or is the second one of its marker. -/
theorem region_of_isComment_label {offset : Nat}
    (h : (s.label b offset).region.isComment = true) :
    s.region = (s.label b offset).region ∨ s.region = .code ∧ s.last = some Byte.slash := by
  simp only [label, Label.regionOf] at h ⊢
  by_cases hs : s.region = .code
  · rw [if_pos hs, region_step, move, hs] at h
    exact .inr ⟨hs, by grind [moveInCode, Move.single, Region.isComment]⟩
  · exact .inl (by rw [if_neg hs])

/-- A slash that can begin a comment was read in code. -/
theorem region_of_last_eq_slash (hr : (s.step b).region = .code)
    (hl : (s.step b).last = some Byte.slash) : s.region = .code ∧ b = Byte.slash := by
  have hb : b = Byte.slash ∧ (s.move b).completesPair = false := by
    rw [step] at hl
    split at hl
    case isTrue => cases hl
    case isFalse hp => exact ⟨Option.some.inj hl, by simpa using hp⟩
  obtain ⟨rfl, hp⟩ := hb
  refine ⟨?_, rfl⟩
  rw [region_step] at hr
  rw [move] at hr hp
  cases hs : s.region with
  | code => rfl
  | lineComment => grind [moveInLineComment, Move.single]
  | blockComment => grind [moveInBlockComment, Move.pair, Move.single]
  | quoted q => cases q <;> grind [moveInQuoted, Move.single, Quote.byte]
  | template depth =>
    cases depth with
    | zero => grind [moveInTemplateText, Move.single, Move.pair]
    | succ depth => grind [moveInPlaceholder, Move.single]

/-- It is labelled as code. -/
theorem label_of_last_eq_slash {offset : Nat} (hr : (s.step b).region = .code)
    (hl : (s.step b).last = some Byte.slash) :
    (s.label b offset).region = .code ∧ b = Byte.slash := by
  obtain ⟨hs, hb⟩ := region_of_last_eq_slash hr hl
  exact ⟨(region_label_of_code hs b offset).trans hr, hb⟩

/-- The last byte read in a comment is labelled as that comment. -/
theorem label_of_isComment_step {offset : Nat} (h : (s.step b).region.isComment = true) :
    (s.label b offset).region = (s.step b).region := by
  have hm := moves_step s b
  simp only [label, Label.regionOf]
  generalize (s.step b).region = next, s.region = region, s.role b = role at h hm ⊢
  cases hm with
  | enter => rfl
  | stay => simp
  | plain | opened | closed | leave | abandoned => cases h
  | marker | plainInside | openedInside | closedInside | finished => cases h

end Lexer

namespace Label

/-- A label at every offset, in order, and a comment begins only right after a slash labelled as
code. -/
structure Reads (labels : List Label) (bytes : List UInt8) : Prop where
  length_eq : labels.length = bytes.length
  offset_eq : ∀ (n : Nat) (l : Label), labels[n]? = some l → l.offset = n
  head : ∀ l : Label, labels[0]? = some l → l.region.isComment = false
  next : ∀ (n : Nat) (l l' : Label), labels[n]? = some l → labels[n + 1]? = some l' →
    l'.region.isComment = true → l.region = l'.region ∨ l.region = .code ∧ bytes[n]? = some Byte.slash

theorem reads_labels (bytes : List UInt8) : Reads (Lexer.start.labels bytes 0) bytes where
  length_eq := Lexer.length_labels _ _ _
  offset_eq := by
    intro n l hl
    rw [Lexer.getElem?_labels] at hl
    obtain ⟨b, -, rfl⟩ := Option.map_eq_some_iff.mp hl
    exact Nat.zero_add n
  head := by
    intro l hl
    rw [Lexer.getElem?_labels] at hl
    obtain ⟨b, -, rfl⟩ := Option.map_eq_some_iff.mp hl
    refine Bool.eq_false_iff.mpr fun hc => ?_
    obtain hr | ⟨-, hlast⟩ := Lexer.region_of_isComment_label hc
    · rw [← hr] at hc
      cases hc
    · cases hlast
  next := by
    intro n l l' hl hl' hc
    rw [Lexer.getElem?_labels] at hl hl'
    obtain ⟨b, hb, rfl⟩ := Option.map_eq_some_iff.mp hl
    obtain ⟨b', -, rfl⟩ := Option.map_eq_some_iff.mp hl'
    rw [Lexer.after_take_of_getElem? _ hb] at hc ⊢
    obtain hr | ⟨hcode, hlast⟩ := Lexer.region_of_isComment_label hc
    · rw [← hr] at hc ⊢
      exact .inl (Lexer.label_of_isComment_step hc)
    · obtain ⟨hregion, rfl⟩ := Lexer.label_of_last_eq_slash hcode hlast
      exact .inr ⟨hregion, hb⟩

theorem foldlM_collectStep (seen : List Label) (s : Lexer) (bytes : List UInt8) (offset : Nat)
    (h : s.region.placeholderDepth + bytes.length ≤ maxOffset) :
    (bytes.zipIdx offset).foldlM collectStep (seen, s) =
      .ok ((s.labels bytes offset).reverse ++ seen, s.after bytes) := by
  induction bytes generalizing s seen offset with
  | nil => rfl
  | cons b bytes ih =>
    have hd := Lexer.placeholderDepth_step_le s b
    simp only [List.length_cons] at h
    have hs : collectStep (seen, s) (b, offset) = .ok (s.label b offset :: seen, s.step b) := by
      have hf : s.feed b = .ok (s.role b, s.step b) := Lexer.feed_eq_ok b (by omega)
      simp only [collectStep, ofByte, hf]
      rfl
    have hr := ih (s.label b offset :: seen) (s.step b) (offset + 1) (by omega)
    rw [List.zipIdx_cons, List.foldlM_cons, hs]
    simpa [bind, Except.bind] using hr

theorem collect_eq_ok (bytes : List UInt8) (offset : Nat) (h : bytes.length ≤ maxOffset) :
    collect .start (bytes.zipIdx offset) = .ok (Lexer.start.labels bytes offset) := by
  have hp : Lexer.start.region.placeholderDepth + bytes.length ≤ maxOffset := by
    simpa [Lexer.start, Region.placeholderDepth] using h
  simp [collect, foldlM_collectStep [] .start bytes offset hp, bind, Except.bind, pure, Except.pure]

end Label

theorem Buffer.classify_ofBytes {bytes : List UInt8} (h : bytes.length ≤ maxOffset) {start : Nat}
    (hs : start ≤ bytes.length) :
    (ofBytes bytes).classify start = .ok (Lexer.start.labels (bytes.drop start) start) := by
  have hc : (ofBytes bytes).classify start = Label.collect .start ((bytes.drop start).zipIdx start) :=
    bind_rest_ofBytes h hs _
  rw [hc]
  exact Label.collect_eq_ok _ _ (by rw [List.length_drop]; omega)

namespace Span

/-- Spans, latest first, that cut the first `stop` offsets without gaps. -/
inductive Tile : List Span → Nat → Prop where
  | nil : Tile [] 0
  | cons {r : Span} {earlier : List Span} :
      Tile earlier r.start → r.start < r.stop → Tile (r :: earlier) r.stop

/-- The bytes of a span are labelled with its region. Only the slash that begins a comment is
labelled as code. -/
def Labelled (bytes : List UInt8) (labels : List Label) (r : Span) : Prop :=
  ∀ o, r.start ≤ o → o < r.stop → ∃ l, labels[o]? = some l ∧ l.offset = o ∧
    if r.region.isComment = true ∧ o = r.start then
      l.region = .code ∧ bytes[o]? = some Byte.slash
    else l.region = r.region

/-- What holds of the spans, latest first, after `n` labels. -/
structure Built (bytes : List UInt8) (labels : List Label) (spans : List Span) (n : Nat) :
    Prop where
  tile : Tile spans n
  labelled : ∀ r ∈ spans, r.Labelled bytes labels
  comment_length : ∀ r ∈ spans, r.region.isComment = true → r.start + 1 < r.stop

variable {bytes : List UInt8} {labels : List Label} {spans earlier : List Span} {r : Span} {n : Nat}

namespace Tile

theorem tail (h : Tile (r :: earlier) n) : Tile earlier r.start := by
  cases h with
  | cons htile _ => exact htile

theorem eq_nil_iff (h : Tile spans n) : spans = [] ↔ n = 0 := by
  cases h with
  | nil => simp
  | cons _ hlt =>
    simp only [List.cons_ne_nil, false_iff]
    omega

theorem start_lt_stop (h : Tile spans n) : ∀ r ∈ spans, r.start < r.stop := by
  induction h with
  | nil => simp
  | cons _ hlt ih => exact List.forall_mem_cons.mpr ⟨hlt, ih⟩

theorem start_eq_zero (h : Tile spans n) : ∀ r, spans.getLast? = some r → r.start = 0 := by
  induction h with
  | nil => simp
  | @cons r earlier htile _ ih =>
    cases earlier with
    | nil =>
      have hz : r.start = 0 := (eq_nil_iff htile).mp rfl
      simpa using hz
    | cons s earlier => simpa using ih

theorem stop_eq (h : Tile spans n) : ∀ r, spans.head? = some r → r.stop = n := by
  cases h with
  | nil => simp
  | cons => simp

theorem start_eq_stop (h : Tile spans n) (later : List Span) (s r : Span) (earlier : List Span)
    (hs : spans = later ++ s :: r :: earlier) : s.start = r.stop := by
  induction h generalizing later with
  | nil => simp at hs
  | cons htile _ ih =>
    cases later with
    | nil =>
      obtain ⟨rfl, rfl⟩ := List.cons.inj hs
      exact (htile.stop_eq r rfl).symm
    | cons q later => exact ih later (List.cons.inj hs).2

end Tile

/-- A list of spans, in order, is a partition of the first `length` offsets. -/
structure Partition (spans : List Span) (length : Nat) : Prop where
  eq_nil_iff : spans = [] ↔ length = 0
  starts_at_zero : ∀ r, spans.head? = some r → r.start = 0
  adjacent : ∀ before r s after, spans = before ++ r :: s :: after → s.start = r.stop
  start_lt_stop : ∀ r ∈ spans, r.start < r.stop
  ends_at_length : ∀ r, spans.getLast? = some r → r.stop = length

theorem Tile.partition (h : Tile spans n) : Partition spans.reverse n where
  eq_nil_iff := List.reverse_eq_nil_iff.trans h.eq_nil_iff
  starts_at_zero := by
    rw [List.head?_reverse]
    exact h.start_eq_zero
  adjacent := by
    intro before r s after hs
    refine h.start_eq_stop after.reverse s r before.reverse ?_
    rw [← List.reverse_reverse spans, hs]
    simp
  start_lt_stop := by
    intro r hr
    exact h.start_lt_stop r (List.mem_reverse.mp hr)
  ends_at_length := by
    rw [List.getLast?_reverse]
    exact h.stop_eq

theorem Labelled.mono {r' : Span} (h : r.Labelled bytes labels) (hr : r'.region = r.region)
    (hs : r'.start = r.start) (ht : r'.stop ≤ r.stop) : r'.Labelled bytes labels := by
  intro o hlo hhi
  rw [hr, hs]
  exact h o (hs ▸ hlo) (by omega)

namespace Built

theorem start (bytes : List UInt8) (labels : List Label) : Built bytes labels [] 0 :=
  ⟨.nil, nofun, nofun⟩

/-- The last byte so far is labelled with the region of the latest span. -/
theorem exists_last_label (h : Built bytes labels (r :: earlier) r.stop) :
    ∃ m l, r.stop = m + 1 ∧ r.start ≤ m ∧ labels[m]? = some l ∧ l.region = r.region := by
  have hlt := h.tile.start_lt_stop r List.mem_cons_self
  have hc := h.comment_length r List.mem_cons_self
  obtain ⟨l, hl, -, hregion⟩ := h.labelled r List.mem_cons_self (r.stop - 1) (by omega) (by omega)
  have hne : ¬ (r.region.isComment = true ∧ r.stop - 1 = r.start) := by
    rintro ⟨hcomment, hstart⟩
    have := hc hcomment
    omega
  rw [if_neg hne] at hregion
  exact ⟨r.stop - 1, l, by omega, by omega, hl, hregion⟩

/-- The latest span gets longer by a byte with its label. -/
theorem grow {l : Label} (h : Built bytes labels (r :: earlier) r.stop)
    (hl : labels[r.stop]? = some l) (ho : l.offset = r.stop) (hr : r.region = l.region) :
    Built bytes labels ({ r with stop := r.stop + 1 } :: earlier) (r.stop + 1) := by
  have hlt := h.tile.start_lt_stop r List.mem_cons_self
  refine ⟨?_, ?_, ?_⟩
  · exact .cons (r := { r with stop := r.stop + 1 }) h.tile.tail (Nat.lt_succ_of_lt hlt)
  · intro q hq
    obtain rfl | hq := List.mem_cons.mp hq
    · intro o hlo hhi
      rcases Nat.lt_or_ge o r.stop with hold | hnew
      · exact h.labelled r List.mem_cons_self o hlo hold
      · obtain rfl : o = r.stop := by simp only at hhi; omega
        refine ⟨l, hl, ho, ?_⟩
        rw [if_neg (by simp only; omega)]
        exact hr.symm
    · exact h.labelled q (List.mem_cons_of_mem _ hq)
  · intro q hq hc
    obtain rfl | hq := List.mem_cons.mp hq
    · simp only
      have := h.comment_length r List.mem_cons_self hc
      omega
    · exact h.comment_length q (List.mem_cons_of_mem _ hq) hc

/-- A byte outside comments begins a span. -/
theorem begin {l : Label} (h : Built bytes labels spans n) (hl : labels[n]? = some l)
    (ho : l.offset = n) (hc : l.region.isComment = false) :
    Built bytes labels (⟨l.region, n, n + 1⟩ :: spans) (n + 1) := by
  refine ⟨.cons (r := ⟨l.region, n, n + 1⟩) h.tile (Nat.lt_succ_self n), ?_, ?_⟩
  · refine List.forall_mem_cons.mpr ⟨?_, h.labelled⟩
    intro o hlo hhi
    obtain rfl : o = n := by simp only at hlo hhi; omega
    refine ⟨l, hl, ho, ?_⟩
    simp [hc]
  · refine List.forall_mem_cons.mpr ⟨?_, h.comment_length⟩
    simp [hc]

/-- A span of code gives up its last byte. -/
theorem giveBack {m : Nat} (h : Built bytes labels (r :: earlier) (m + 1))
    (hc : r.region.isComment = false) :
    ∃ rest, r.giveBack earlier = .ok rest ∧ Built bytes labels rest m := by
  have hstop : r.stop = m + 1 := h.tile.stop_eq r rfl
  have hlt := h.tile.start_lt_stop r List.mem_cons_self
  have htile : Tile earlier r.start := h.tile.tail
  have hearlier : ∀ q ∈ earlier, q ∈ r :: earlier := fun q => List.mem_cons_of_mem r
  rw [Span.giveBack, hstop, offsetBefore_succ]
  simp only [bind, Except.bind, pure, Except.pure, Except.ok.injEq, exists_eq_left']
  by_cases hm : r.start = m
  · rw [if_pos hm]
    exact ⟨hm ▸ htile, fun q hq => h.labelled q (hearlier q hq),
      fun q hq => h.comment_length q (hearlier q hq)⟩
  · rw [if_neg hm]
    refine ⟨.cons (r := { r with stop := m }) htile (by simp only; omega), ?_, ?_⟩
    · refine List.forall_mem_cons.mpr ⟨?_, fun q hq => h.labelled q (hearlier q hq)⟩
      exact (h.labelled r List.mem_cons_self).mono rfl rfl (by simp only; omega)
    · refine List.forall_mem_cons.mpr ⟨?_, fun q hq => h.comment_length q (hearlier q hq)⟩
      simp [hc]

/-- A comment begins with the slash before the byte that is first labelled as comment. -/
theorem beginComment {m : Nat} {slash l : Label} (h : Built bytes labels spans m)
    (hslash : labels[m]? = some slash) (ho : slash.offset = m) (hcode : slash.region = .code)
    (hb : bytes[m]? = some Byte.slash) (hl : labels[m + 1]? = some l) (ho' : l.offset = m + 1)
    (hc : l.region.isComment = true) :
    Built bytes labels (⟨l.region, m, m + 2⟩ :: spans) (m + 2) := by
  refine ⟨.cons (r := ⟨l.region, m, m + 2⟩) h.tile (by simp only; omega), ?_, ?_⟩
  · refine List.forall_mem_cons.mpr ⟨?_, h.labelled⟩
    intro o hlo hhi
    obtain rfl | rfl : o = m ∨ o = m + 1 := by simp only at hlo hhi; omega
    · exact ⟨slash, hslash, ho, by rw [if_pos ⟨hc, rfl⟩]; exact ⟨hcode, hb⟩⟩
    · exact ⟨l, hl, ho', by rw [if_neg (by simp)]⟩
  · refine List.forall_mem_cons.mpr ⟨?_, h.comment_length⟩
    intro _
    simp only
    omega

/-- One more label. -/
theorem extend {l : Label} (hreads : Label.Reads labels bytes) (h : Built bytes labels spans n)
    (hl : labels[n]? = some l) (hn : n + 1 ≤ maxOffset) :
    ∃ spans', Span.extend spans l = .ok spans' ∧ Built bytes labels spans' (n + 1) := by
  have ho := hreads.offset_eq n l hl
  have hstop : checkOffset (l.offset + 1) = .ok (n + 1) := by rw [ho]; exact checkOffset_of_le hn
  cases spans with
  | nil =>
    obtain rfl : n = 0 := h.tile.eq_nil_iff.mp rfl
    rw [Span.extend, hstop, ho]
    exact ⟨_, rfl, h.begin hl ho (hreads.head l hl)⟩
  | cons r earlier =>
    obtain rfl : r.stop = n := h.tile.stop_eq r rfl
    rw [Span.extend, hstop]
    simp only [bind, Except.bind]
    by_cases hr : r.region = l.region
    · rw [if_pos hr]
      exact ⟨_, rfl, h.grow hl ho hr⟩
    · rw [if_neg hr]
      cases hc : l.region.isComment with
      | false =>
        rw [if_neg (by simp), ho]
        exact ⟨_, rfl, h.begin hl ho hc⟩
      | true =>
        -- The span before is not of this comment, so it ends with the slash of its marker.
        obtain ⟨m, slash, hm, -, hslash, hregion⟩ := h.exists_last_label
        rw [hm] at hl ho h
        obtain hsame | ⟨hcode, hb⟩ := hreads.next m slash l hslash hl hc
        · exact absurd (hregion.symm.trans hsame) hr
        · have hrc : r.region.isComment = false := by rw [← hregion, hcode]; rfl
          obtain ⟨rest, hback, hrest⟩ := h.giveBack hrc
          rw [if_pos rfl, ho, offsetBefore_succ, hback, hm]
          exact ⟨_, rfl, hrest.beginComment hslash (hreads.offset_eq m slash hslash) hcode hb hl ho hc⟩

/-- All labels of a text, one by one. -/
theorem exists_foldlM_extend (hreads : Label.Reads labels bytes) (hb : bytes.length ≤ maxOffset)
    (n : Nat) (hn : n ≤ labels.length) :
    ∃ spans, (labels.take n).foldlM Span.extend [] = .ok spans ∧ Built bytes labels spans n := by
  induction n with
  | zero => exact ⟨[], rfl, start bytes labels⟩
  | succ n ih =>
    obtain ⟨spans, hfold, hbuilt⟩ := ih (by omega)
    have hlt : n < labels.length := by omega
    have hmax : n + 1 ≤ maxOffset := by
      have := hreads.length_eq
      omega
    obtain ⟨spans', hext, hbuilt'⟩ := hbuilt.extend hreads (List.getElem?_eq_getElem hlt) hmax
    refine ⟨spans', ?_, hbuilt'⟩
    rw [List.take_succ_eq_append_getElem hlt, List.foldlM_append, hfold]
    simp [bind, Except.bind, hext, pure, Except.pure]

end Built

end Span

/-- The spans of a text, in order: they partition its offsets, the bytes of each are labelled with its
region, and a comment has at least the two bytes of its marker. -/
structure Span.Covers (spans : List Span) (bytes : List UInt8) : Prop where
  partition : Partition spans bytes.length
  labelled : ∀ r ∈ spans, r.Labelled bytes (Lexer.start.labels bytes 0)
  comment_length : ∀ r ∈ spans, r.region.isComment = true → r.start + 1 < r.stop

theorem Buffer.exists_covers {bytes : List UInt8} (h : bytes.length ≤ maxOffset) :
    ∃ spans, (ofBytes bytes).spans = .ok spans ∧ Span.Covers spans bytes := by
  have hc : (ofBytes bytes).classify 0 = .ok (Lexer.start.labels bytes 0) :=
    classify_ofBytes h (Nat.zero_le _)
  have hreads := Label.reads_labels bytes
  obtain ⟨latest, hfold, hbuilt⟩ := Span.Built.exists_foldlM_extend hreads h _ (Nat.le_refl _)
  rw [List.take_length] at hfold
  rw [hreads.length_eq] at hbuilt
  refine ⟨latest.reverse, ?_, hbuilt.tile.partition, ?_, ?_⟩
  · rw [spans, hc]
    simp [Span.ofLabels, hfold, bind, Except.bind, Functor.map, Except.map]
  · intro r hr
    exact hbuilt.labelled r (List.mem_reverse.mp hr)
  · intro r hr
    exact hbuilt.comment_length r (List.mem_reverse.mp hr)

theorem Buffer.exists_spans {bytes : List UInt8} (h : bytes.length ≤ maxOffset) :
    ∃ spans, (ofBytes bytes).spans = .ok spans := by
  obtain ⟨spans, hspans, -⟩ := exists_covers h
  exact ⟨spans, hspans⟩

/-- The spans of a text partition it: each starts where the one before stops, none is empty, and the
bytes of each are labelled with its region, the first slash of a comment excepted. -/
theorem Buffer.spans_partition (bytes : List UInt8) (h : bytes.length ≤ maxOffset) :
    ∃ spans labels, (ofBytes bytes).spans = .ok spans ∧ (ofBytes bytes).classify 0 = .ok labels ∧
      Span.Partition spans bytes.length ∧ ∀ r ∈ spans, r.Labelled bytes labels := by
  obtain ⟨spans, hspans, hc⟩ := exists_covers h
  exact ⟨spans, _, hspans, classify_ofBytes h (Nat.zero_le _), hc.partition, hc.labelled⟩

/-- A line comment right after a block comment takes the whole span that its slash had begun. -/
theorem Buffer.partition_of_comments :
    Span.Partition [⟨.code, 0, 1⟩, ⟨.blockComment, 1, 5⟩, ⟨.lineComment, 5, 7⟩] 7 ∧
      Span.Labelled [0x61, Byte.slash, Byte.star, Byte.star, Byte.slash, Byte.slash, Byte.slash]
        (Lexer.start.labels [0x61, Byte.slash, Byte.star, Byte.star, Byte.slash, Byte.slash,
          Byte.slash] 0) ⟨.lineComment, 5, 7⟩ := by
  obtain ⟨spans, labels, hs, hc, hp, hl⟩ := Buffer.spans_partition [0x61, Byte.slash, Byte.star,
    Byte.star, Byte.slash, Byte.slash, Byte.slash] (by decide)
  obtain rfl : [⟨.code, 0, 1⟩, ⟨.blockComment, 1, 5⟩, ⟨.lineComment, 5, 7⟩] = spans :=
    Except.ok.inj hs
  obtain rfl : Lexer.start.labels [0x61, Byte.slash, Byte.star, Byte.star, Byte.slash, Byte.slash,
      Byte.slash] 0 = labels := Except.ok.inj hc
  exact ⟨hp, hl _ (by simp)⟩

end BraceBalance
