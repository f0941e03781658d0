import BraceBalance.Proofs.Partners

/-!
# Placeholders

The lexer counts the braces of a placeholder to find its end, the tally counts all braces that count,
and both counts move together. As long as a placeholder is open, the tally is the one at its marker
with the braces opened since on top, one fewer than the lexer has counted. So a placeholder gives its
tally back as it found it, and no brace inside it takes a partner outside.
-/

namespace BraceBalance

namespace Lexer

variable {role : Role} {region : Region} {depth : Nat}

/-- How a byte leads into a placeholder, or leaves the lexer inside: as the brace of its marker, as a
brace that counts, or as plain code. -/
theorem Moves.into_placeholder (h : Moves role region (.template (depth + 1))) :
    role = .placeholderOpen ∧ depth = 0 ∨
      ∃ before, region = .template (before + 1) ∧
        (role = .openBrace ∧ depth = before + 1 ∨
          role = .closeBrace ∧ before = depth + 1 ∨ role = .code ∧ depth = before) := by
  cases h with
  | enter hi | stay hi => cases hi
  | marker => exact .inl ⟨rfl, rfl⟩
  | plainInside => exact .inr ⟨_, rfl, .inr (.inr ⟨rfl, rfl⟩)⟩
  | openedInside => exact .inr ⟨_, rfl, .inl ⟨rfl, rfl⟩⟩
  | closedInside => exact .inr ⟨_, rfl, .inr (.inl ⟨rfl, rfl⟩)⟩

theorem Moves.of_placeholderClose {next : Region} (h : Moves .placeholderClose region next) :
    region = .template 1 := by
  cases h
  rfl

end Lexer

/-- The byte at `p` is the brace of the latest marker among the first `n` bytes, and the lexer has
not left the placeholder since. -/
structure InPlaceholder (readings : List (Role × Region)) (p n : Nat) : Prop where
  marker : readings[p]?.map Prod.fst = some .placeholderOpen
  lt : p < n
  latest : ∀ i, p < i → i < n → readings[i]?.map Prod.fst ≠ some .placeholderOpen
  inside : ∀ i, p ≤ i → i < n → ∃ role depth, readings[i]? = some (role, .template (depth + 1))

theorem InPlaceholder.start {readings : List (Role × Region)} {p depth : Nat}
    (h : readings[p]? = some (.placeholderOpen, .template (depth + 1))) :
    InPlaceholder readings p (p + 1) where
  marker := by rw [h, Option.map_some]
  lt := Nat.lt_succ_self p
  latest := by
    intro i hlo hhi
    omega
  inside := by
    intro i hlo hhi
    obtain rfl : i = p := by omega
    exact ⟨_, _, h⟩

theorem InPlaceholder.next {readings : List (Role × Region)} {p n depth : Nat} {r : Role}
    (h : InPlaceholder readings p n) (hn : readings[n]? = some (r, .template (depth + 1)))
    (hr : r ≠ .placeholderOpen) : InPlaceholder readings p (n + 1) where
  marker := h.marker
  lt := Nat.lt_succ_of_lt h.lt
  latest := by
    intro i hlo hhi
    rcases Nat.lt_succ_iff_lt_or_eq.mp hhi with hlt | rfl
    · exact h.latest i hlo hlt
    · simpa [hn] using hr
  inside := by
    intro i hlo hhi
    rcases Nat.lt_succ_iff_lt_or_eq.mp hhi with hlt | rfl
    · exact h.inside i hlo hlt
    · exact ⟨_, _, hn⟩

namespace Tally

/-- Closing a brace above `base` is not closing nothing: if the depth is negative then, it was negative
at `base`. -/
theorem firstNegative_closed_above {base t : Tally}
    (hb : base.depth < 0 → base.firstNegative ≠ none) (hd : base.depth < t.depth)
    (hf : t.firstNegative = base.firstNegative) (n : Nat) :
    (t.closed n).firstNegative = base.firstNegative := by
  rw [Tally.closed, hf]
  cases hbase : base.firstNegative with
  | some c => rfl
  | none =>
    have hnonneg : ¬ t.depth - 1 < 0 := by
      have : ¬ base.depth < 0 := fun hneg => hb hneg hbase
      omega
    simp [hnonneg]

/-- The tally `t` is `base` with `d` more braces open, all of them opened after `p`. -/
structure OnTop (base t : Tally) (p d : Nat) : Prop where
  depth : t.depth = base.depth + d
  pending : ∃ inner, t.pending = inner ++ base.pending ∧ inner.length = d ∧ ∀ o ∈ inner, p < o
  firstNegative : t.firstNegative = base.firstNegative

namespace OnTop

variable {base t : Tally} {p d n : Nat}

theorem refl (base : Tally) (p : Nat) : OnTop base base p 0 :=
  ⟨(Int.add_zero _).symm, ⟨[], rfl, rfl, nofun⟩, rfl⟩

/-- The tally's own lexer plays no part. -/
theorem withLexer (h : OnTop base t p d) (l : Lexer) : OnTop base { t with lexer := l } p d :=
  ⟨h.depth, h.pending, h.firstNegative⟩

theorem opened (h : OnTop base t p d) (hn : p < n) : OnTop base (t.opened n) p (d + 1) := by
  obtain ⟨inner, hpending, hlength, hafter⟩ := h.pending
  refine ⟨?_, ⟨n :: inner, ?_, ?_, ?_⟩, h.firstNegative⟩
  · simp only [Tally.opened, h.depth]
    omega
  · rw [Tally.opened, hpending, List.cons_append]
  · rw [List.length_cons, hlength]
  · exact List.forall_mem_cons.mpr ⟨hn, hafter⟩

/-- Closing one of the braces on top does not reach below. -/
theorem closed (h : OnTop base t p (d + 1)) (hb : base.depth < 0 → base.firstNegative ≠ none)
    (n : Nat) : OnTop base (t.closed n) p d := by
  have hd := h.depth
  obtain ⟨inner, hpending, hlength, hafter⟩ := h.pending
  obtain ⟨o, inner, rfl⟩ := List.exists_cons_of_length_eq_add_one hlength
  refine ⟨?_, ⟨inner, ?_, ?_, fun o ho => hafter o (List.mem_cons_of_mem _ ho)⟩, ?_⟩
  · simp only [Tally.closed, hd]
    omega
  · rw [Tally.closed, hpending, List.cons_append, List.tail_cons]
  · simpa using hlength
  · exact firstNegative_closed_above hb (by omega) h.firstNegative n

end OnTop

/-- What the scan of a text has counted after its first `n` bytes. -/
def upTo (bytes : List UInt8) (n : Nat) : Tally := start.readAll (bytes.take n).zipIdx

variable {bytes : List UInt8} {n : Nat}

theorem lexer_upTo (bytes : List UInt8) (n : Nat) :
    (upTo bytes n).lexer = Lexer.start.after (bytes.take n) :=
  lexer_readAll _ _ _

theorem upTo_succ (h : n < bytes.length) :
    upTo bytes (n + 1) = (upTo bytes n).read bytes[n] n := by
  rw [upTo, List.take_succ_eq_append_getElem h, List.zipIdx_append, readAll_append]
  simp [upTo, Nat.min_eq_left (Nat.le_of_lt h)]

theorem tracks_upTo (bytes : List UInt8) {n : Nat} (h : n ≤ bytes.length) :
    (upTo bytes n).Tracks (Lexer.start.roles bytes) n :=
  tracks_readAll bytes n h

/-- In a placeholder the tally is the one at the marker with the braces opened since on top. -/
theorem exists_onTop (bytes : List UInt8) (n depth : Nat) (hn : n ≤ bytes.length)
    (h : (upTo bytes n).lexer.region = .template (depth + 1)) :
    ∃ p, InPlaceholder (Lexer.start.readings bytes) p n ∧
      OnTop (upTo bytes p) (upTo bytes n) p depth := by
  induction n generalizing depth with
  | zero => cases h
  | succ n ih =>
    have hlt : n < bytes.length := by omega
    have hread : (Lexer.start.readings bytes)[n]? =
        some ((upTo bytes n).lexer.role bytes[n], .template (depth + 1)) := by
      rw [upTo_succ hlt, lexer_read, lexer_upTo] at h
      rw [Lexer.getElem?_readings, List.getElem?_eq_getElem hlt, Option.map_some, h, lexer_upTo]
    rw [upTo_succ hlt] at h ⊢
    rw [lexer_read] at h
    have hmoves := Lexer.moves_step (upTo bytes n).lexer bytes[n]
    rw [h] at hmoves
    obtain ⟨hrole, rfl⟩ | ⟨before, hbefore, hcase⟩ := hmoves.into_placeholder
    · rw [hrole] at hread
      refine ⟨n, .start hread, ?_⟩
      rw [read, hrole]
      exact (OnTop.refl _ n).withLexer _
    · obtain ⟨p, hin, htop⟩ := ih before (by omega) hbefore
      have hneg := (tracks_upTo bytes (n := p) (by have := hin.lt; omega)).firstNegative_ne_none
      rw [read]
      obtain ⟨hrole, rfl⟩ | ⟨hrole, rfl⟩ | ⟨hrole, rfl⟩ := hcase
      · refine ⟨p, hin.next hread (by simp [hrole]), ?_⟩
        rw [hrole]
        exact (htop.withLexer _).opened hin.lt
      · refine ⟨p, hin.next hread (by simp [hrole]), ?_⟩
        rw [hrole]
        exact (htop.withLexer _).closed hneg n
      · refine ⟨p, hin.next hread (by simp [hrole]), ?_⟩
        rw [hrole]
        exact htop.withLexer _

/-- A brace closed in a placeholder was opened in that placeholder. -/
theorem exists_paired_of_inside (bytes : List UInt8) (c depth : Nat) (hc : c < bytes.length)
    (h : (upTo bytes c).lexer.region = .template (depth + 1))
    (hr : (Lexer.start.roles bytes)[c]? = some .closeBrace) :
    ∃ p o, InPlaceholder (Lexer.start.readings bytes) p c ∧ p < o ∧
      Paired (Lexer.start.roles bytes) o c := by
  obtain ⟨p, hin, htop⟩ := exists_onTop bytes c depth (Nat.le_of_lt hc) h
  have hdeep : depth ≠ 0 := by
    rintro rfl
    rw [Lexer.getElem?_roles_eq_some_iff (List.getElem?_eq_getElem hc), ← lexer_upTo] at hr
    obtain ⟨-, hcode | ⟨before, hbefore, -⟩⟩ := Lexer.role_eq_closeBrace_iff.mp hr
    · rw [h] at hcode
      cases hcode
    · rw [h] at hbefore
      cases hbefore
  obtain ⟨inner, hpending, hlength, hafter⟩ := htop.pending
  cases inner with
  | nil => exact absurd hlength.symm hdeep
  | cons o inner =>
    refine ⟨p, o, hin, hafter o List.mem_cons_self, paired_iff.mpr ⟨hr, ?_⟩⟩
    rw [← (tracks_upTo bytes (Nat.le_of_lt hc)).pending, hpending, List.cons_append,
      List.head?_cons]

/-- The end of a placeholder finds the tally of its marker. -/
theorem exists_onTop_of_placeholderClose (bytes : List UInt8) (c : Nat)
    (h : (Lexer.start.roles bytes)[c]? = some .placeholderClose) :
    ∃ p, InPlaceholder (Lexer.start.readings bytes) p c ∧
      OnTop (upTo bytes p) (upTo bytes (c + 1)) p 0 := by
  rw [Lexer.getElem?_roles] at h
  obtain ⟨b, hb, hrole⟩ := Option.map_eq_some_iff.mp h
  obtain ⟨hc, rfl⟩ := List.getElem?_eq_some_iff.mp hb
  rw [← lexer_upTo] at hrole
  have hmoves := Lexer.moves_step (upTo bytes c).lexer bytes[c]
  rw [hrole] at hmoves
  obtain ⟨p, hin, htop⟩ := exists_onTop bytes c 0 (Nat.le_of_lt hc) hmoves.of_placeholderClose
  refine ⟨p, hin, ?_⟩
  rw [upTo_succ hc, read, hrole]
  exact htop.withLexer _

/-- No brace closed in a placeholder is the first that closes nothing. -/
theorem firstNegative_upTo_ne (bytes : List UInt8) {n c depth : Nat} (hn : n ≤ bytes.length)
    (h : (upTo bytes c).lexer.region = .template (depth + 1)) :
    (upTo bytes n).firstNegative ≠ some c := by
  intro hf
  rw [(tracks_upTo bytes hn).firstNegative] at hf
  obtain ⟨hc, hstray⟩ := List.mem_filter.mp (List.mem_of_head? hf)
  obtain ⟨hr, hfree⟩ := isStray_iff.mp hstray
  rw [List.mem_range] at hc
  obtain ⟨p, o, -, -, hpaired⟩ := exists_paired_of_inside bytes c depth (by omega) h hr
  exact hfree o (mem_pairsBefore.mpr ⟨hc, paired_iff.mp hpaired⟩)

end Tally

namespace Buffer

/-- The scan of a text has counted `t` after its first `n` bytes, and goes on from there. -/
structure Counted (bytes : List UInt8) (n : Nat) (t : Tally) : Prop where
  le_length : n ≤ bytes.length
  scan_eq : Tally.scan .endOfText false .start (bytes.take n).zipIdx = .ok (none, t)
  resumes : t.scan .endOfText false ((bytes.drop n).zipIdx n) =
    (ofBytes bytes).scan 0 .endOfText .start

variable {bytes : List UInt8} {n : Nat} {t : Tally}

theorem counted_upTo (h : bytes.length ≤ maxOffset) (hn : n ≤ bytes.length) :
    Counted bytes n (Tally.upTo bytes n) := by
  have hl : (bytes.take n).zipIdx.length + ((bytes.drop n).zipIdx n).length = bytes.length := by
    rw [List.length_zipIdx, List.length_zipIdx, List.length_take, List.length_drop]
    omega
  have hroom : Tally.start.HasRoom
      ((bytes.take n).zipIdx.length + ((bytes.drop n).zipIdx n).length) := by
    rw [hl]
    exact Tally.hasRoom_start h
  have hsplit : bytes.zipIdx = (bytes.take n).zipIdx ++ (bytes.drop n).zipIdx n := by
    have ha : (bytes.take n ++ bytes.drop n).zipIdx =
        (bytes.take n).zipIdx ++ (bytes.drop n).zipIdx (0 + (bytes.take n).length) :=
      List.zipIdx_append
    rwa [List.take_append_drop, List.length_take, Nat.min_eq_left hn, Nat.zero_add] at ha
  have hall : Tally.start.HasRoom bytes.zipIdx.length := by
    rw [List.length_zipIdx]
    exact Tally.hasRoom_start h
  refine ⟨hn, ?_, ?_⟩
  · exact Tally.scan_endOfText false _ (Tally.hasRoom_start (by omega))
  · rw [scan_ofBytes h (Nat.zero_le _), List.drop_zero, Tally.upTo,
      Tally.scan_endOfText false _ hroom.readAll, Tally.scan_endOfText false _ hall, hsplit,
      Tally.readAll_append]

theorem Counted.eq_upTo (h : bytes.length ≤ maxOffset) (ht : Counted bytes n t) :
    t = Tally.upTo bytes n := by
  have heq := ht.scan_eq.symm.trans (counted_upTo h ht.le_length).scan_eq
  simpa using heq

/-- A placeholder is isolated. Wherever the scan of a text stands in one, its tally is the one at the
marker with the braces opened since on top. So a brace closed inside takes its partner inside, the end
of the placeholder leaves the tally of the marker, and the first brace that closes nothing is in no
placeholder. -/
theorem placeholder_isolated (bytes : List UInt8) (h : bytes.length ≤ maxOffset) :
    ∃ readings, Lexer.start.trace bytes = .ok readings ∧
      (∀ n ≤ bytes.length, ∃ t, Counted bytes n t ∧
        ∀ depth, t.lexer.region = .template (depth + 1) → ∃ p base,
          InPlaceholder readings p n ∧ Counted bytes p base ∧ base.OnTop t p depth) ∧
      (∀ c t depth, Counted bytes c t → t.lexer.region = .template (depth + 1) →
        (readings.map Prod.fst)[c]? = some .closeBrace → ∃ p o,
          InPlaceholder readings p c ∧ p < o ∧ o < c ∧ Paired (readings.map Prod.fst) o c) ∧
      (∀ c, (readings.map Prod.fst)[c]? = some .placeholderClose → ∃ p base t,
        InPlaceholder readings p c ∧ Counted bytes p base ∧ Counted bytes (c + 1) t ∧
          t.depth = base.depth ∧ t.pending = base.pending ∧
          t.firstNegative = base.firstNegative) ∧
      ∀ n c t before depth, Counted bytes n t → Counted bytes c before →
        before.lexer.region = .template (depth + 1) → t.firstNegative ≠ some c := by
  refine ⟨_, Lexer.start_trace h, ?_, ?_, ?_, ?_⟩
  · intro n hn
    refine ⟨_, counted_upTo h hn, fun depth hr => ?_⟩
    obtain ⟨p, hin, htop⟩ := Tally.exists_onTop bytes n depth hn hr
    exact ⟨p, _, hin, counted_upTo h (by have := hin.lt; omega), htop⟩
  · intro c t depth ht hr hrole
    have hc : c < bytes.length := Lexer.lt_length_of_getElem?_roles hrole
    rw [ht.eq_upTo h] at hr
    obtain ⟨p, o, hin, hlt, hpaired⟩ := Tally.exists_paired_of_inside bytes c depth hc hr hrole
    exact ⟨p, o, hin, hlt, lt_of_mem_pairsBefore hpaired, hpaired⟩
  · intro c hrole
    have hc : c < bytes.length := Lexer.lt_length_of_getElem?_roles hrole
    obtain ⟨p, hin, htop⟩ := Tally.exists_onTop_of_placeholderClose bytes c hrole
    obtain ⟨inner, hpending, hlength, -⟩ := htop.pending
    obtain rfl := List.length_eq_zero_iff.mp hlength
    exact ⟨p, _, _, hin, counted_upTo h (by have := hin.lt; omega), counted_upTo h hc,
      htop.depth.trans (Int.add_zero _), hpending, htop.firstNegative⟩
  · intro n c t before depth ht hbefore hr
    rw [hbefore.eq_upTo h] at hr
    rw [ht.eq_upTo h]
    exact Tally.firstNegative_upTo_ne bytes ht.le_length hr

/-- After a stray brace a placeholder counts from below zero, and what is pending in it stands on
nothing. -/
theorem onTop_after_stray :
    ∃ readings p, ∃ base t : Tally,
      Lexer.start.trace [Byte.closeBrace, Byte.backtick, Byte.dollar, Byte.openBrace, Byte.openBrace,
        Byte.closeBrace] = .ok readings ∧
      InPlaceholder readings p 5 ∧ base.OnTop t p 1 ∧ t.depth = 0 ∧ t.pending = [4] := by
  obtain ⟨readings, ht, htop, -⟩ := placeholder_isolated [Byte.closeBrace, Byte.backtick,
    Byte.dollar, Byte.openBrace, Byte.openBrace, Byte.closeBrace] (by decide)
  obtain ⟨t, hcounted, hinside⟩ := htop 5 (by decide)
  have hscan : Tally.scan .endOfText false .start ([Byte.closeBrace, Byte.backtick, Byte.dollar,
      Byte.openBrace, Byte.openBrace, Byte.closeBrace].take 5).zipIdx =
      .ok (none, ⟨⟨.template 2, some Byte.openBrace, false⟩, 0, some 0, [4]⟩) := rfl
  obtain rfl : ⟨⟨.template 2, some Byte.openBrace, false⟩, 0, some 0, [4]⟩ = t := by
    simpa using hscan.symm.trans hcounted.scan_eq
  obtain ⟨p, base, hin, -, hbase⟩ := hinside 1 rfl
  exact ⟨readings, p, base, _, ht, hin, hbase, rfl, rfl⟩

end Buffer

end BraceBalance
