import BraceBalance.Proofs.Matching

/-!
# Concatenation

A text can be scanned in two parts, the second going on from the tally of the first. The tally of the
whole and the tally of the parts then differ in nothing but the offsets found in the second part, which
the whole counts from the start of the first. This holds wherever the cut falls, since both scans of
the second part start with the same lexer.
-/

namespace BraceBalance

namespace Tally

/-- Two tallies that went on from `base` over the same bytes: `whole` with offsets from `n` on, `part`
with offsets from 0 on. Of the braces open in `base` both have closed the same ones. -/
structure Shifted (n : Nat) (base whole part : Tally) : Prop where
  lexer : part.lexer = whole.lexer
  depth : part.depth = whole.depth
  firstNegative : ∃ found : Option Nat,
    part.firstNegative = base.firstNegative.or found ∧
      whole.firstNegative = base.firstNegative.or (found.map (n + ·))
  pending : ∃ inner outer, part.pending = inner ++ outer ∧
    whole.pending = inner.map (n + ·) ++ outer ∧ outer <:+ base.pending

namespace Shifted

variable {n : Nat} {base whole part : Tally}

theorem refl (n : Nat) (base : Tally) : Shifted n base base base where
  lexer := rfl
  depth := rfl
  firstNegative := ⟨none, by simp, by simp⟩
  pending := ⟨[], base.pending, rfl, rfl, List.suffix_refl _⟩

theorem withLexer (h : Shifted n base whole part) (l : Lexer) :
    Shifted n base { whole with lexer := l } { part with lexer := l } :=
  ⟨rfl, h.depth, h.firstNegative, h.pending⟩

theorem opened (h : Shifted n base whole part) (i : Nat) :
    Shifted n base (whole.opened (n + i)) (part.opened i) where
  lexer := h.lexer
  depth := congrArg (· + 1) h.depth
  firstNegative := h.firstNegative
  pending := by
    obtain ⟨inner, outer, hpart, hwhole, houter⟩ := h.pending
    exact ⟨i :: inner, outer, by rw [Tally.opened, hpart, List.cons_append],
      by rw [Tally.opened, hwhole, List.map_cons, List.cons_append], houter⟩

/-- A closing brace takes the same brace in both: one of the second part, or else one of `base`. -/
theorem closed (h : Shifted n base whole part) (i : Nat) :
    Shifted n base (whole.closed (n + i)) (part.closed i) where
  lexer := h.lexer
  depth := congrArg (· - 1) h.depth
  firstNegative := by
    obtain ⟨found, hpart, hwhole⟩ := h.firstNegative
    refine ⟨found.or (if part.depth - 1 < 0 then some i else none), ?_, ?_⟩
    · rw [Tally.closed, hpart, Option.or_assoc]
    · rw [Tally.closed, hwhole, Option.or_assoc, ← h.depth]
      cases found <;> split <;> rfl
  pending := by
    obtain ⟨inner, outer, hpart, hwhole, houter⟩ := h.pending
    cases inner with
    | nil =>
      refine ⟨[], outer.tail, by rw [Tally.closed, hpart]; rfl, by rw [Tally.closed, hwhole]; rfl, ?_⟩
      exact (List.tail_suffix outer).trans houter
    | cons o inner =>
      exact ⟨inner, outer, by rw [Tally.closed, hpart]; rfl, by rw [Tally.closed, hwhole]; rfl, houter⟩

/-- One byte of the second part. -/
theorem read (h : Shifted n base whole part) (b : UInt8) (i : Nat) :
    Shifted n base (whole.read b (n + i)) (part.read b i) := by
  rw [Tally.read, Tally.read, h.lexer]
  have hl := h.withLexer (whole.lexer.step b)
  cases whole.lexer.role b with
  | openBrace => exact hl.opened i
  | closeBrace => exact hl.closed i
  | code | inert | placeholderOpen | placeholderClose => exact hl

/-- All of the second part. -/
theorem readAll (h : Shifted n base whole part) (bytes : List UInt8) (i : Nat) :
    Shifted n base (whole.readAll (bytes.zipIdx (n + i))) (part.readAll (bytes.zipIdx i)) := by
  induction bytes generalizing whole part i with
  | nil => exact h
  | cons b bytes ih => exact ih (h.read b i) (i + 1)

end Shifted

/-- What a scan of two texts in one knows from their scans one after the other: `first` is the tally of
a text of `n` bytes, `second` the one that a further text has made of it, and `whole` the tally of
both texts as one. -/
structure Joins (n : Nat) (first second whole : Tally) : Prop where
  lexer : second.lexer = whole.lexer
  depth : second.depth = whole.depth
  firstNegative_of_some : ∀ c, first.firstNegative = some c →
    second.firstNegative = some c ∧ whole.firstNegative = some c
  firstNegative_of_none : first.firstNegative = none →
    whole.firstNegative = second.firstNegative.map (n + ·)
  unclosed : ∃ old new, whole.unclosed = old ++ new ∧ second.unclosed = old ++ new.map (· - n) ∧
    (∀ o ∈ old, o < n) ∧ (∀ o ∈ new, n ≤ o) ∧ old <+: first.unclosed

theorem Shifted.joins {n : Nat} {first second whole : Tally} (h : Shifted n first whole second)
    (hn : ∀ o ∈ first.pending, o < n) : Joins n first second whole where
  lexer := h.lexer
  depth := h.depth
  firstNegative_of_some := by
    intro c hc
    obtain ⟨found, hsecond, hwhole⟩ := h.firstNegative
    rw [hc, Option.some_or] at hsecond hwhole
    exact ⟨hsecond, hwhole⟩
  firstNegative_of_none := by
    intro hnone
    obtain ⟨found, hsecond, hwhole⟩ := h.firstNegative
    rw [hnone, Option.none_or] at hsecond hwhole
    rw [hsecond, hwhole]
  unclosed := by
    obtain ⟨inner, outer, hsecond, hwhole, houter⟩ := h.pending
    refine ⟨outer.reverse, (inner.map (n + ·)).reverse, ?_, ?_, ?_, ?_, ?_⟩
    · rw [Tally.unclosed, hwhole, List.reverse_append]
    · have hinner : (inner.map (n + ·)).map (· - n) = inner := by
        simp [List.map_map, Function.comp_def]
      rw [Tally.unclosed, hsecond, List.reverse_append, List.map_reverse, hinner]
    · intro o ho
      exact hn o (houter.subset (List.mem_reverse.mp ho))
    · intro o ho
      obtain ⟨i, -, rfl⟩ := List.mem_map.mp (List.mem_reverse.mp ho)
      exact Nat.le_add_right n i
    · exact List.reverse_prefix.mpr houter

end Tally

namespace Buffer

variable {u v : List UInt8}

/-- A scan of a whole text, going on from what was counted before. -/
theorem scan_zero_ofBytes {t : Tally} {bytes : List UInt8} (h : bytes.length ≤ maxOffset)
    (ht : t.HasRoom bytes.length) :
    (ofBytes bytes).scan 0 .endOfText t = .ok (none, t.readAll bytes.zipIdx) := by
  rw [scan_ofBytes h (Nat.zero_le _), List.drop_zero]
  exact Tally.scan_endOfText false _ (by rwa [List.length_zipIdx])

theorem joins_readAll (u v : List UInt8) :
    Tally.Joins u.length (Tally.start.readAll u.zipIdx)
      ((Tally.start.readAll u.zipIdx).readAll v.zipIdx)
      (Tally.start.readAll (u ++ v).zipIdx) := by
  have hsplit : (u ++ v).zipIdx = u.zipIdx ++ v.zipIdx (u.length + 0) := by
    rw [List.zipIdx_append, Nat.add_zero, Nat.zero_add]
  have hpending : ∀ o ∈ (Tally.start.readAll u.zipIdx).pending, o < u.length := by
    intro o ho
    rw [(Tally.tracks_readAll_length u).pending, mem_freeBefore, Lexer.length_roles] at ho
    exact ho.1
  rw [hsplit, Tally.readAll_append]
  exact ((Tally.Shifted.refl _ _).readAll v 0).joins hpending

/-- Scanning two texts one after the other counts what scanning them as one counts. The lexer and the
depth are the same. A first negative offset of the first text stays, and one of the second text is
counted from its own start. The braces left open are those of the whole, first the ones of the first
text, and then the ones of the second counted from its own start. So whatever is appended to a text, the
first negative offset that it has is kept, and no brace of it becomes unclosed. -/
theorem scan_append (u v : List UInt8) (h : u.length + v.length ≤ maxOffset) :
    (∃ first second whole, (ofBytes u).scan 0 .endOfText .start = .ok (none, first) ∧
      (ofBytes v).scan 0 .endOfText first = .ok (none, second) ∧
      (ofBytes (u ++ v)).scan 0 .endOfText .start = .ok (none, whole) ∧
      Tally.Joins u.length first second whole) ∧
    ∃ before after, (ofBytes u).balance = .ok before ∧ (ofBytes (u ++ v)).balance = .ok after ∧
      (∀ c, before.firstNegative = some c → after.firstNegative = some c) ∧
      ∀ o ∈ after.unclosed, o < u.length → o ∈ before.unclosed := by
  have hu : u.length ≤ maxOffset := by omega
  have huv : (u ++ v).length ≤ maxOffset := by rwa [List.length_append]
  have hroom : (Tally.start.readAll u.zipIdx).HasRoom v.length :=
    Tally.HasRoom.readAll (Tally.hasRoom_start (by rwa [List.length_zipIdx]))
  have hjoins := joins_readAll u v
  refine ⟨⟨_, _, _, scan_zero_ofBytes hu (Tally.hasRoom_start hu),
    scan_zero_ofBytes (by omega) hroom, scan_zero_ofBytes huv (Tally.hasRoom_start huv), hjoins⟩,
    _, _, balance_ofBytes hu, balance_ofBytes huv, ?_, ?_⟩
  · intro c hc
    exact (hjoins.firstNegative_of_some c hc).2
  · intro o ho hlt
    obtain ⟨old, new, hwhole, -, -, hnew, hold⟩ := hjoins.unclosed
    have hmem : o ∈ old ++ new := hwhole ▸ ho
    obtain hm | hm := List.mem_append.mp hmem
    · exact hold.subset hm
    · exact absurd (hnew o hm) (Nat.not_le.mpr hlt)

/-- A cut within a quoted string: the brace before the string is closed behind it, the next one closes
nothing, and both texts leave the last one open. -/
theorem scan_append_in_string :
    ∃ first second whole : Tally,
      Tally.Joins 2 first second whole ∧ first.unclosed = [0] ∧ first.firstNegative = none ∧
      second.unclosed = [4] ∧ second.firstNegative = some 3 ∧
      whole.unclosed = [6] ∧ whole.firstNegative = some 5 := by
  obtain ⟨⟨first, second, whole, hf, hs, hw, hjoins⟩, -⟩ := scan_append
    [Byte.openBrace, Byte.singleQuote]
    [Byte.closeBrace, Byte.singleQuote, Byte.closeBrace, Byte.closeBrace, Byte.openBrace] (by decide)
  obtain rfl : ⟨⟨.quoted .single, some Byte.singleQuote, false⟩, 1, none, [0]⟩ = first :=
    (Prod.mk.inj (Except.ok.inj hf)).2
  obtain rfl : ⟨⟨.code, some Byte.openBrace, false⟩, 0, some 3, [4]⟩ = second :=
    (Prod.mk.inj (Except.ok.inj hs)).2
  obtain rfl : ⟨⟨.code, some Byte.openBrace, false⟩, 0, some 5, [6]⟩ = whole :=
    (Prod.mk.inj (Except.ok.inj hw)).2
  exact ⟨_, _, _, hjoins, rfl, rfl, rfl, rfl, rfl, rfl⟩

end Buffer

end BraceBalance
