import BraceBalance.Construct
import BraceBalance.Proofs.Bodies
import BraceBalance.Proofs.Spans

/-!
# Safety

No scan of a text of admissible length meets a fault, from wherever it starts, whenever it stops and
whatever anchor or name it is given: the depth and the placeholder depth grow by at most one a byte,
and every span bound that is lowered was raised before. Nor does the padding of a buffer matter. All
that a scan reads is the text, so buffers that differ only after their text answer alike.
-/

namespace BraceBalance

/-- A scan with room for the bytes ahead comes to its end, by whatever rule it stops. -/
theorem Tally.exists_scan {t : Tally} (stop : StopRule) (wasPositive : Bool)
    (bytes : List (UInt8 × Nat)) (h : t.HasRoom bytes.length) :
    ∃ answer, t.scan stop wasPositive bytes = .ok answer := by
  induction bytes generalizing t wasPositive with
  | nil => exact ⟨_, rfl⟩
  | cons byte bytes ih =>
    obtain ⟨b, offset⟩ := byte
    rw [scan_cons (feed_eq_ok h b offset)]
    split
    · exact ⟨_, rfl⟩
    · exact ih _ (h.read b offset)

namespace Buffer

/-- A buffer that holds a text, with any padding. -/
structure Holds (b : Buffer) (bytes : List UInt8) : Prop where
  length_eq : b.length = bytes.length
  text_eq : b.text = bytes

theorem holds_ofBytes {bytes : List UInt8} (h : bytes.length ≤ maxOffset) :
    (ofBytes bytes).Holds bytes :=
  ⟨length_ofBytes bytes h, text_ofBytes bytes h⟩

namespace Holds

variable {b : Buffer} {bytes : List UInt8}

/-- What is read from `start` on is the rest of the text. -/
theorem rest_eq (hb : b.Holds bytes) (h : bytes.length ≤ maxOffset) (start : Nat) :
    (b.cursorAt start >>= Cursor.rest) =
      .ok ((bytes.drop (min start bytes.length)).zipIdx (min start bytes.length)) := by
  rw [rest_cursorAt b (by rw [hb.length_eq]; exact h), hb.text_eq, hb.length_eq]

/-- Every byte that is read stands in the text, where its offset says. -/
theorem getElem?_of_mem_rest (hb : b.Holds bytes) (h : bytes.length ≤ maxOffset) {start : Nat}
    {read : List (UInt8 × Nat)} (hr : (b.cursorAt start >>= Cursor.rest) = .ok read)
    {byte : UInt8} {offset : Nat} (hm : (byte, offset) ∈ read) :
    offset < b.length ∧ bytes[offset]? = some byte := by
  rw [hb.rest_eq h] at hr
  obtain rfl := Except.ok.inj hr
  obtain ⟨hle, hget⟩ := List.mk_mem_zipIdx_iff_le_and_getElem?_sub.mp hm
  rw [List.getElem?_drop, Nat.add_sub_cancel' hle] at hget
  exact ⟨hb.length_eq ▸ (List.getElem?_eq_some_iff.mp hget).1, hget⟩

/-- What goes over the rest of a text depends on the text alone. -/
theorem bind_rest {α : Type} (hb : b.Holds bytes) (h : bytes.length ≤ maxOffset) (start : Nat)
    (k : List (UInt8 × Nat) → Except Fault α) :
    (b.cursorAt start >>= fun cursor => cursor.rest >>= k) =
      k ((bytes.drop (min start bytes.length)).zipIdx (min start bytes.length)) := by
  rw [← bind_assoc, hb.rest_eq h]
  rfl

theorem scan_eq (hb : b.Holds bytes) (h : bytes.length ≤ maxOffset) (start : Nat)
    (stop : StopRule) (t : Tally) :
    b.scan start stop t = (ofBytes bytes).scan start stop t :=
  (hb.bind_rest h start _).trans ((holds_ofBytes h).bind_rest h start _).symm

theorem classify_eq (hb : b.Holds bytes) (h : bytes.length ≤ maxOffset) (start : Nat) :
    b.classify start = (ofBytes bytes).classify start :=
  (hb.bind_rest h start _).trans ((holds_ofBytes h).bind_rest h start _).symm

theorem spans_eq (hb : b.Holds bytes) (h : bytes.length ≤ maxOffset) :
    b.spans = (ofBytes bytes).spans := by
  rw [spans, spans, hb.classify_eq h]

theorem checkAnchor_eq (hb : b.Holds bytes) (h : bytes.length ≤ maxOffset) (anchor : Nat) :
    b.checkAnchor anchor = (ofBytes bytes).checkAnchor anchor := by
  have ho := holds_ofBytes h
  rw [checkAnchor, checkAnchor, hb.text_eq, hb.length_eq, ho.text_eq, ho.length_eq]

theorem bodyAt_eq (hb : b.Holds bytes) (h : bytes.length ≤ maxOffset) (anchor : Nat) :
    b.bodyAt anchor = (ofBytes bytes).bodyAt anchor := by
  simp only [bodyAt, hb.checkAnchor_eq h, hb.scan_eq h]

theorem exists_scan (hb : b.Holds bytes) (h : bytes.length ≤ maxOffset) (start : Nat)
    (stop : StopRule) : ∃ answer, b.scan start stop .start = .ok answer := by
  have hs := hb.bind_rest h start (Tally.scan stop false .start)
  have hroom : Tally.start.HasRoom
      ((bytes.drop (min start bytes.length)).zipIdx (min start bytes.length)).length := by
    rw [List.length_zipIdx, List.length_drop]
    exact Tally.hasRoom_start (by omega)
  obtain ⟨answer, ha⟩ := Tally.exists_scan stop false _ hroom
  exact ⟨answer, hs.trans ha⟩

theorem exists_classify (hb : b.Holds bytes) (h : bytes.length ≤ maxOffset) (start : Nat) :
    ∃ labels, b.classify start = .ok labels := by
  have hl : (bytes.drop (min start bytes.length)).length ≤ maxOffset := by
    rw [List.length_drop]
    omega
  exact ⟨_, (hb.bind_rest h start _).trans (Label.collect_eq_ok _ _ hl)⟩

theorem exists_bodyAt (hb : b.Holds bytes) (h : bytes.length ≤ maxOffset) (anchor : Nat) :
    ∃ answer, b.bodyAt anchor = .ok answer := by
  obtain ⟨⟨closing, last⟩, hs⟩ := hb.exists_scan h anchor .balanced
  rw [bodyAt, hb.checkAnchor_eq h, checkAnchor_ofBytes h, hs]
  simp only [bind, Except.bind]
  split
  · exact ⟨_, rfl⟩
  · exact ⟨_, rfl⟩

end Holds

/-- A search for a construct comes to an answer: with no body to scan there is none that could fail. -/
theorem exists_find {text : String} (h : (Text.bytes text).length ≤ maxOffset) (name : String) :
    ∃ answer, Construct.find text name = .ok answer := by
  rw [Construct.find]
  cases Construct.locate text name with
  | error e => exact ⟨_, rfl⟩
  | ok place =>
    obtain ⟨answer, ha⟩ := (holds_ofBytes h).exists_bodyAt h place.2
    simp only [ofText, ha, bind, Except.bind]
    split
    · exact ⟨_, rfl⟩
    · exact ⟨_, rfl⟩

/-- Whatever follows a text in its buffer, all scans of the text come to an answer without a fault,
read bytes of the text alone, and answer as they do where zeros follow. -/
theorem scans_read_text_alone (text : String) (h : (Text.bytes text).length ≤ maxOffset)
    (b : Buffer) (hb : b.Holds (Text.bytes text)) :
    (∀ start, ∃ read, (b.cursorAt start >>= Cursor.rest) = .ok read ∧
      ∀ byte offset, (byte, offset) ∈ read →
        offset < b.length ∧ (Text.bytes text)[offset]? = some byte) ∧
    (∀ start stop, ∃ answer, b.scan start stop .start = .ok answer ∧
      (ofText text).scan start stop .start = .ok answer) ∧
    (∀ anchor, ∃ answer, b.bodyAt anchor = .ok answer ∧
      (ofText text).bodyAt anchor = .ok answer) ∧
    (∀ name, ∃ answer, Construct.find text name = .ok answer) ∧
    (∃ spans, b.spans = .ok spans ∧ (ofText text).spans = .ok spans) ∧
    ∀ start, ∃ labels, b.classify start = .ok labels ∧
      (ofText text).classify start = .ok labels := by
  refine ⟨?_, ?_, ?_, exists_find h, ?_, ?_⟩
  · intro start
    exact ⟨_, hb.rest_eq h start, fun _ _ => hb.getElem?_of_mem_rest h (hb.rest_eq h start)⟩
  · intro start stop
    obtain ⟨answer, ha⟩ := hb.exists_scan h start stop
    exact ⟨answer, ha, (hb.scan_eq h start stop .start).symm.trans ha⟩
  · intro anchor
    obtain ⟨answer, ha⟩ := hb.exists_bodyAt h anchor
    exact ⟨answer, ha, (hb.bodyAt_eq h anchor).symm.trans ha⟩
  · obtain ⟨spans, hs⟩ := exists_spans h
    exact ⟨spans, (hb.spans_eq h).trans hs, hs⟩
  · intro start
    obtain ⟨labels, hl⟩ := hb.exists_classify h start
    exact ⟨labels, hl, (hb.classify_eq h start).symm.trans hl⟩

/-- A brace in the padding does not close the body that the text leaves open. -/
theorem bodyAt_before_closing_padding :
    (⟨[Byte.openBrace, Byte.closeBrace], 1, by decide⟩ : Buffer).bodyAt 0 = .ok (.ok ⟨0, none⟩) := by
  obtain ⟨-, -, hbody, -⟩ := scans_read_text_alone "\x7b" (by decide)
    ⟨[Byte.openBrace, Byte.closeBrace], 1, by decide⟩ ⟨rfl, rfl⟩
  obtain ⟨answer, ha, ht⟩ := hbody 0
  obtain rfl : .ok ⟨0, none⟩ = answer := Except.ok.inj ht
  exact ha

end Buffer

end BraceBalance
