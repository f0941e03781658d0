import BraceBalance.Proofs.Counting

/-!
# Stopping early

A scan that waits for the balance reads what a scan to the end reads, up to the brace it stops at and
that brace included. Going on behind the brace makes up for what it left unread, so both ways of
stopping count alike, and meet the same fault if they meet one. This holds of every tally, whatever
was scanned before, as nothing but the unread rest of the text tells the two ways apart.
-/

namespace BraceBalance

namespace Tally

variable {t : Tally}

theorem HasRoom.mono {m n : Nat} (h : t.HasRoom m) (hn : n ≤ m) : t.HasRoom n := by
  obtain ⟨hp, hl, hu⟩ := h
  constructor <;> omega

/-- A scan that succeeds takes no more room than it has bytes to read. -/
theorem HasRoom.scan {n : Nat} {stop : StopRule} {wasPositive : Bool} {found : Option Nat}
    {next : Tally} {bytes : List (UInt8 × Nat)} (h : t.HasRoom (bytes.length + n))
    (hs : t.scan stop wasPositive bytes = .ok (found, next)) : next.HasRoom n := by
  induction bytes generalizing t wasPositive with
  | nil =>
    obtain ⟨-, rfl⟩ := Prod.mk.inj (Except.ok.inj hs)
    simpa using h
  | cons byte bytes ih =>
    obtain ⟨b, offset⟩ := byte
    have hb : t.HasRoom (bytes.length + n + 1) := by
      rwa [List.length_cons, Nat.add_right_comm] at h
    have hr := hb.read b offset
    rw [scan_cons (feed_eq_ok hb b offset)] at hs
    split at hs
    · obtain ⟨-, rfl⟩ := Prod.mk.inj (Except.ok.inj hs)
      exact hr.mono (by omega)
    · exact ih hr hs

/-- Tallies that scans have led to, one scan going on from the other, with the number of bytes in the
buffers that were scanned. -/
inductive Reached : Nat → Tally → Prop where
  | start : Reached 0 .start
  | scan {n start : Nat} {t next : Tally} {b : Buffer} {stop : StopRule} {found : Option Nat} :
      Reached n t → b.length ≤ maxOffset → b.scan start stop t = .ok (found, next) →
      Reached (n + b.length) next

end Tally

namespace Buffer

theorem length_text (b : Buffer) : b.text.length = b.length := by
  have := b.length_lt_size
  rw [text, List.length_take]
  omega

/-- A scan of a buffer reads the rest of its text. -/
theorem scan_eq (b : Buffer) (h : b.length ≤ maxOffset) (start : Nat) (stop : StopRule) (t : Tally) :
    b.scan start stop t =
      t.scan stop false ((b.text.drop (min start b.length)).zipIdx (min start b.length)) := by
  have hr := rest_cursorAt b h start
  rw [scan, ← bind_assoc, hr]
  rfl

end Buffer

namespace Tally

variable {t : Tally}

theorem HasRoom.buffer_scan {n start : Nat} {stop : StopRule} {found : Option Nat} {next : Tally}
    {b : Buffer} (h : t.HasRoom (b.length + n)) (hb : b.length ≤ maxOffset)
    (hs : b.scan start stop t = .ok (found, next)) : next.HasRoom n := by
  rw [b.scan_eq hb] at hs
  refine HasRoom.scan (h.mono ?_) hs
  rw [List.length_zipIdx, List.length_drop, b.length_text]
  omega

/-- As long as the scans are small in total, no counter gets near its bound. -/
theorem Reached.hasRoom {n k : Nat} (h : t.Reached n) (hk : n + k ≤ maxOffset) : t.HasRoom k := by
  induction h generalizing k with
  | start => exact hasRoom_start (by omega)
  | scan _ hb hs ih => exact (ih (by omega)).buffer_scan hb hs

/-- A scan to the end does not ask whether the depth was positive. -/
theorem scan_endOfText_eq (wasPositive : Bool) (t : Tally) (bytes : List (UInt8 × Nat)) :
    t.scan .endOfText wasPositive bytes = t.scan .endOfText false bytes := by
  induction bytes generalizing t wasPositive with
  | nil => rfl
  | cons byte bytes ih =>
    obtain ⟨b, offset⟩ := byte
    cases hf : t.feed b offset with
    | error fault => rw [scan_cons_of_fault hf, scan_cons_of_fault hf]
    | ok read =>
      obtain ⟨role, next⟩ := read
      rw [scan_cons hf, scan_cons hf, if_neg (by simp), if_neg (by simp), ih]
      exact (ih _ next).symm

theorem found_endOfText {wasPositive : Bool} {bytes : List (UInt8 × Nat)} {found : Option Nat}
    {last : Tally} (h : t.scan .endOfText wasPositive bytes = .ok (found, last)) : found = none := by
  induction bytes generalizing t wasPositive with
  | nil => exact (Prod.mk.inj (Except.ok.inj h)).1.symm
  | cons byte bytes ih =>
    obtain ⟨b, offset⟩ := byte
    cases hf : t.feed b offset with
    | error fault => cases (scan_cons_of_fault hf).symm.trans h
    | ok read =>
      rw [scan_cons hf, if_neg (by simp)] at h
      exact ih h

/-- Of two scans of `bytes`, from `offset` on, the one is the other, or it stopped at a byte behind which
a scan to the end goes on as the other did. -/
def Truncates (stopped ended : Except Fault (Option Nat × Tally)) (bytes : List UInt8)
    (offset : Nat) : Prop :=
  stopped = ended ∨
    ∃ n next, n < bytes.length ∧ stopped = .ok (some (offset + n), next) ∧
      ended = next.scan .endOfText false ((bytes.drop (n + 1)).zipIdx (offset + n + 1))

theorem Truncates.cons {stopped ended : Except Fault (Option Nat × Tally)} {bytes : List UInt8}
    {offset : Nat} (h : Truncates stopped ended bytes (offset + 1)) (b : UInt8) :
    Truncates stopped ended (b :: bytes) offset := by
  obtain heq | ⟨n, next, hn, hstop, hrest⟩ := h
  · exact .inl heq
  · have ho : offset + 1 + n = offset + (n + 1) := by omega
    rw [ho] at hstop hrest
    exact .inr ⟨n + 1, next, Nat.succ_lt_succ hn, hstop, hrest⟩

/-- A scan that waits for the balance truncates the scan to the end. -/
theorem scan_truncates (wasPositive : Bool) (t : Tally) (bytes : List UInt8) (offset : Nat) :
    Truncates (t.scan .balanced wasPositive (bytes.zipIdx offset))
      (t.scan .endOfText false (bytes.zipIdx offset)) bytes offset := by
  induction bytes generalizing t wasPositive offset with
  | nil => exact .inl rfl
  | cons b bytes ih =>
    rw [List.zipIdx_cons]
    cases hf : t.feed b offset with
    | error fault =>
      rw [scan_cons_of_fault hf, scan_cons_of_fault hf]
      exact .inl rfl
    | ok read =>
      rw [scan_cons hf, scan_cons hf, if_neg (by simp : ¬ (StopRule.endOfText = .balanced ∧ _)),
        scan_endOfText_eq]
      split
      · exact .inr ⟨0, read.2, Nat.succ_pos _, rfl, rfl⟩
      · exact (ih _ read.2 (offset + 1)).cons b

end Tally

namespace Buffer

variable {b : Buffer}

/-- Where a scan that waits for the balance stops, and what the scan to the end does from there. -/
theorem scan_balanced_cases (h : b.length ≤ maxOffset) (start : Nat) (t : Tally) :
    b.scan start .balanced t = b.scan start .endOfText t ∨
      ∃ o next, o < b.length ∧ b.scan start .balanced t = .ok (some o, next) ∧
        b.scan start .endOfText t = b.scan (o + 1) .endOfText next := by
  simp only [b.scan_eq h]
  refine (Tally.scan_truncates false t (b.text.drop (min start b.length)) _).imp_right ?_
  rintro ⟨n, next, hn, hstop, hrest⟩
  rw [List.length_drop, b.length_text] at hn
  refine ⟨_, next, by omega, hstop, hrest.trans ?_⟩
  rw [List.drop_drop, Nat.min_eq_left (show min start b.length + n + 1 ≤ b.length by omega),
    Nat.add_assoc]

/-- The stop rule only truncates: a scan that waits for the balance, continued behind the brace it
stopped at, counts what the scan to the end counts, and it is that scan if it did not stop. If it
meets a fault, so does the scan to the end. That scan never names a brace, and it meets no fault while
the counters have room for the text, as they do after scans that were small in total. -/
theorem balanced_truncates (b : Buffer) (h : b.length ≤ maxOffset) (start : Nat) (t : Tally) :
    (∀ o next, b.scan start .balanced t = .ok (some o, next) →
      o < b.length ∧ b.scan (o + 1) .endOfText next = b.scan start .endOfText t) ∧
    (∀ next, b.scan start .balanced t = .ok (none, next) →
      b.scan start .endOfText t = .ok (none, next)) ∧
    (∀ fault, b.scan start .balanced t = .error fault →
      b.scan start .endOfText t = .error fault) ∧
    (∀ found last, b.scan start .endOfText t = .ok (found, last) → found = none) ∧
    (t.HasRoom b.length → ∃ last, b.scan start .endOfText t = .ok (none, last)) ∧
    ∀ n, t.Reached n → n + b.length ≤ maxOffset → t.HasRoom b.length := by
  have hfound : ∀ found last, b.scan start .endOfText t = .ok (found, last) → found = none := by
    intro found last hs
    rw [b.scan_eq h] at hs
    exact Tally.found_endOfText hs
  refine ⟨?_, ?_, ?_, hfound, ?_, fun n hr hn => hr.hasRoom hn⟩
  · intro o next hs
    obtain heq | ⟨o', next', ho, hstop, hrest⟩ := scan_balanced_cases h start t
    · cases hfound _ _ (heq.symm.trans hs)
    · obtain ⟨hoo, rfl⟩ := Prod.mk.inj (Except.ok.inj (hs.symm.trans hstop))
      obtain rfl := Option.some.inj hoo
      exact ⟨ho, hrest.symm⟩
  · intro next hs
    obtain heq | ⟨o, next', -, hstop, -⟩ := scan_balanced_cases h start t
    · exact heq.symm.trans hs
    · cases hs.symm.trans hstop
  · intro fault hs
    obtain heq | ⟨o, next, -, hstop, -⟩ := scan_balanced_cases h start t
    · exact heq.symm.trans hs
    · cases hs.symm.trans hstop
  · intro hroom
    refine ⟨_, (b.scan_eq h start .endOfText t).trans (Tally.scan_endOfText false _ (hroom.mono ?_))⟩
    rw [List.length_zipIdx, List.length_drop, b.length_text]
    omega

/-- A scan that goes on below zero and within a token: the comment begun before hides the first brace,
the next two bring the depth to one, and the scan stops at the one that brings it back. -/
theorem balanced_truncates_after_stray :
    ∃ t next last, t.Reached 2 ∧ t.depth = -1 ∧
      (ofText "*\x7b*/\x7b\x7b\x7d\x7b").scan 0 .balanced t = .ok (some 6, next) ∧
      (ofText "*\x7b*/\x7b\x7b\x7d\x7b").scan 7 .endOfText next = .ok (none, last) ∧
      (ofText "*\x7b*/\x7b\x7b\x7d\x7b").scan 0 .endOfText t = .ok (none, last) := by
  have hs : (ofText "\x7d/").scan 0 .endOfText .start =
      .ok (none, ⟨⟨.code, some Byte.slash, false⟩, -1, some 0, []⟩) := rfl
  have hr : Tally.Reached 2 ⟨⟨.code, some Byte.slash, false⟩, -1, some 0, []⟩ :=
    Tally.Reached.scan .start (by decide) hs
  obtain ⟨hstop, -, -, -, hroom, hreached⟩ :=
    balanced_truncates (ofText "*\x7b*/\x7b\x7b\x7d\x7b") (by decide) 0 _
  obtain ⟨last, hlast⟩ := hroom (hreached 2 hr (by decide))
  obtain ⟨-, hrest⟩ := hstop 6 _ rfl
  exact ⟨_, _, last, hr, rfl, rfl, hrest.trans hlast, hlast⟩

end Buffer

end BraceBalance
