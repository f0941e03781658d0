import Mathlib.Data.Nat.Init
import BraceBalance.Findings
import BraceBalance.Proofs.Insertion

/-!
# Open ends

A text that does not end in code has last left it through one delimiter. No brace behind the delimiter
of a comment or of a quoted string counts. In a template literal the braces of its placeholders do,
though a diagnostic at the end of the text says otherwise. They stand on top of what was counted up to
the delimiter: those of a finished placeholder leave nothing behind, and of the one that is still open
all that remains is one brace fewer than its depth.
-/

namespace BraceBalance

/-- The bytes that lead from code into a region. -/
def Region.delimiter : Region → List UInt8
  | .code => []
  | .lineComment => [Byte.slash, Byte.slash]
  | .blockComment => [Byte.slash, Byte.star]
  | .quoted q => [q.byte]
  | .template _ => [Byte.backtick]

theorem Region.exists_template_of_delimiter {region : Region} {depth : Nat}
    (h : region.delimiter = (template depth).delimiter) : ∃ depth', region = template depth' := by
  cases region with
  | template depth' => exact ⟨depth', rfl⟩
  | quoted q => cases q <;> cases h
  | code | lineComment | blockComment => cases h

namespace Lexer

variable {s : Lexer} {b : UInt8} {bytes : List UInt8}

/-- Away from code a region changes only in the depth of its placeholder. -/
theorem Moves.delimiter_eq {role : Role} {region next : Region} (h : Moves role region next)
    (hr : region ≠ .code) (hn : next ≠ .code) : next.delimiter = region.delimiter := by
  cases h with
  | stay | marker | plainInside | openedInside | closedInside | finished => rfl
  | plain | opened | closed | enter => exact absurd rfl hr
  | leave | abandoned => exact absurd rfl hn

/-- A byte leads from code into a region without an open placeholder. -/
theorem placeholderDepth_step_of_code (hs : s.region = .code) (b : UInt8) :
    (s.step b).region.placeholderDepth = 0 := by
  have hmoves := moves_step s b
  rw [hs] at hmoves
  generalize (s.step b).region = next, s.role b = role at hmoves ⊢
  cases hmoves with
  | enter hi => exact Region.placeholderDepth_of_isInert hi
  | plain | opened | closed | stay | leave => rfl

theorem delimiter_step (hs : s.region = .code) :
    (s.step b).region.delimiter = [] ∨ (s.step b).region.delimiter = [b] ∨
      ∃ a, s.last = some a ∧ (s.step b).region.delimiter = [a, b] := by
  rw [region_step, move, hs]
  grind [moveInCode, Move.single, Move.pair, Region.delimiter, Quote.byte]

/-- A region entered from code is entered by its delimiter. -/
theorem delimiter_suffix (h : (start.after bytes).region = .code) (b : UInt8) :
    ((start.after bytes).step b).region.delimiter <:+ bytes ++ [b] := by
  obtain hnone | hone | ⟨a, ha, htwo⟩ := delimiter_step (b := b) h
  · rw [hnone]
    exact List.nil_suffix
  · rw [hone]
    exact List.suffix_append bytes [b]
  · obtain ⟨init, rfl, -⟩ := exists_step_of_last_after ha
    rw [htwo]
    exact ⟨init, by simp⟩

/-- Away from code a brace counts in a placeholder only, and there unless it is escaped or closes the
placeholder. -/
theorem isStructural_role_iff (hs : s.region ≠ .code) :
    (s.role b).isStructural = true ↔ ∃ depth, s.region = .template (depth + 1) ∧
      s.escapes = false ∧ (b = Byte.openBrace ∨ b = Byte.closeBrace ∧ depth ≠ 0) := by
  have hrole : (s.role b).isStructural = true ↔ s.role b = .openBrace ∨ s.role b = .closeBrace := by
    cases s.role b <;> decide
  rw [hrole, role_eq_openBrace_iff, role_eq_closeBrace_iff]
  constructor
  · rintro (⟨hb, hcode | ⟨depth, hr, he⟩⟩ | ⟨hb, hcode | ⟨depth, hr, he⟩⟩)
    · exact absurd hcode hs
    · exact ⟨depth, hr, he, .inl hb⟩
    · exact absurd hcode hs
    · exact ⟨depth + 1, hr, he, .inr ⟨hb, Nat.succ_ne_zero depth⟩⟩
  · rintro ⟨depth, hr, he, hb | ⟨hb, hdepth⟩⟩
    · exact .inl ⟨hb, .inr ⟨depth, hr, he⟩⟩
    · obtain ⟨depth, rfl⟩ := Nat.exists_eq_succ_of_ne_zero hdepth
      exact .inr ⟨hb, .inr ⟨depth, hr, he⟩⟩

end Lexer

namespace Tally

variable {bytes : List UInt8} {o n : Nat}

/-- The byte at `o` is the last among the first `n` that is read in code, and it leads out of it. -/
structure LastCode (bytes : List UInt8) (o n : Nat) : Prop where
  lt : o < n
  code : (upTo bytes o).lexer.region = .code
  left : ∀ i, o < i → i ≤ n → (upTo bytes i).lexer.region ≠ .code

theorem exists_lastCode (h : (upTo bytes n).lexer.region ≠ .code) : ∃ o, LastCode bytes o n := by
  induction n with
  | zero => exact absurd rfl h
  | succ n ih =>
    by_cases hn : (upTo bytes n).lexer.region = .code
    · refine ⟨n, Nat.lt_succ_self n, hn, fun i hlo hhi => ?_⟩
      obtain rfl : i = n + 1 := by omega
      exact h
    · obtain ⟨o, ho⟩ := ih hn
      refine ⟨o, Nat.lt_succ_of_lt ho.lt, ho.code, fun i hlo hhi => ?_⟩
      rcases Nat.le_succ_iff.mp hhi with hle | rfl
      · exact ho.left i hlo hle
      · exact h

/-- Where the lexer stays away from code, the tally stays on top of `base`. -/
theorem OnTop.read {base t : Tally} {p : Nat}
    (h : OnTop base t p (t.lexer.region.placeholderDepth - 1))
    (hb : base.depth < 0 → base.firstNegative ≠ none) (hp : p < n) (b : UInt8)
    (hr : t.lexer.region ≠ .code) (hn : (t.read b n).lexer.region ≠ .code) :
    OnTop base (t.read b n) p ((t.read b n).lexer.region.placeholderDepth - 1) := by
  have hmoves := Lexer.moves_step t.lexer b
  rw [lexer_read] at hn ⊢
  rw [Tally.read]
  generalize (t.lexer.step b).region = next, t.lexer.region = region, t.lexer.role b = role
    at h hr hn hmoves ⊢
  cases hmoves with
  | stay | marker | plainInside | finished => exact h.withLexer _
  | openedInside => exact (h.withLexer _).opened hp
  | closedInside => exact (h.withLexer _).closed hb n
  | plain | opened | closed | enter => exact absurd rfl hr
  | leave | abandoned => exact absurd rfl hn

theorem LastCode.of_le (h : LastCode bytes o n) {i : Nat} (hlo : o < i) (hhi : i ≤ n) :
    LastCode bytes o i :=
  ⟨hlo, h.code, fun j hj hi => h.left j hj (Nat.le_trans hi hhi)⟩

/-- What holds right behind the byte at `o`, and after a byte away from code if before it, holds at
the end. -/
@[elab_as_elim]
theorem LastCode.induction {P : Nat → Prop} (h : LastCode bytes o n) (hn : n ≤ bytes.length)
    (start : P (o + 1))
    (next : ∀ i, o < i → (hi : i < bytes.length) → (upTo bytes i).lexer.region ≠ .code →
      ((upTo bytes i).read bytes[i] i).lexer.region ≠ .code → P i → P (i + 1)) : P n := by
  have hle : o + 1 ≤ n := h.lt
  induction n, hle using Nat.le_induction with
  | base => exact start
  | succ n hle ih =>
    have hbefore := h.of_le hle (Nat.le_succ n)
    have hlt : n < bytes.length := hn
    have hnext := h.left (n + 1) (by omega) (Nat.le_refl _)
    rw [upTo_succ hlt] at hnext
    exact next n hle hlt (hbefore.left n hle (Nat.le_refl n)) hnext (ih hbefore (by omega))

/-- The delimiter opens no placeholder, and behind it the scan stays away from code. -/
theorem LastCode.onTop (h : LastCode bytes o n) (hn : n ≤ bytes.length) :
    OnTop (upTo bytes (o + 1)) (upTo bytes n) o
      ((upTo bytes n).lexer.region.placeholderDepth - 1) := by
  have ho : o < bytes.length := Nat.lt_of_lt_of_le h.lt hn
  have hneg := (tracks_upTo bytes ho).firstNegative_ne_none
  refine h.induction hn ?_ ?_
  · have hdepth : (upTo bytes (o + 1)).lexer.region.placeholderDepth = 0 := by
      rw [upTo_succ ho, lexer_read]
      exact Lexer.placeholderDepth_step_of_code h.code _
    rw [hdepth]
    exact .refl _ _
  · intro i hlo hi hr hnext ih
    rw [upTo_succ hi]
    exact ih.read hneg hlo _ hr hnext

theorem LastCode.delimiter_eq (h : LastCode bytes o n) (hn : n ≤ bytes.length) :
    (upTo bytes n).lexer.region.delimiter = (upTo bytes (o + 1)).lexer.region.delimiter := by
  refine h.induction hn rfl ?_
  intro i hlo hi hr hnext ih
  rw [lexer_read] at hnext
  rw [upTo_succ hi, lexer_read]
  exact ((Lexer.moves_step _ _).delimiter_eq hr hnext).trans ih

end Tally

namespace Buffer

/-- The text leaves open what the byte at `o` opened, the last one of a delimiter: that byte is read in
code, and from it on the text is in one region, up to the depth of a placeholder. -/
structure LeftOpen (bytes : List UInt8) (readings : List (Role × Region)) (last : Region)
    (o : Nat) : Prop where
  lt_length : o < bytes.length
  from_code : ∃ t, Counted bytes o t ∧ t.lexer.region = .code
  delimiter : last.delimiter <:+ bytes.take (o + 1)
  stays : ∀ i role region, o ≤ i → readings[i]? = some (role, region) →
    region ≠ .code ∧ region.delimiter = last.delimiter

/-- Which braces behind the byte at `o` count, and what they add to the tally `base` up to there. -/
structure CountsBehind (bytes : List UInt8) (readings : List (Role × Region)) (o : Nat)
    (base : Tally) (r : Balance) : Prop where
  structural_iff : ∀ i b role region t, o < i → bytes[i]? = some b →
    readings[i]? = some (role, region) → Counted bytes i t →
    (role.isStructural = true ↔ ∃ depth, t.lexer.region = .template (depth + 1) ∧
      t.lexer.escapes = false ∧ (b = Byte.openBrace ∨ b = Byte.closeBrace ∧ depth ≠ 0))
  not_structural : (∀ depth, r.endRegion ≠ .template depth) → ∀ i role region, o < i →
    readings[i]? = some (role, region) → role.isStructural = false
  finalDepth : r.finalDepth = base.depth + (r.endRegion.placeholderDepth - 1 : Nat)
  unclosed : ∃ inner, r.unclosed = base.unclosed ++ inner ∧
    inner.length = r.endRegion.placeholderDepth - 1 ∧ ∀ i ∈ inner, o < i
  firstNegative : r.firstNegative = base.firstNegative

variable {bytes : List UInt8} {o : Nat}

/-- A reading is known from what the scan has counted before its byte and after it. -/
theorem of_getElem?_readings {i : Nat} {role : Role} {region : Region}
    (h : (Lexer.start.readings bytes)[i]? = some (role, region)) :
    ∃ hi : i < bytes.length, role = (Tally.upTo bytes i).lexer.role bytes[i] ∧
      region = (Tally.upTo bytes (i + 1)).lexer.region := by
  rw [Lexer.getElem?_readings] at h
  obtain ⟨b, hb, hpair⟩ := Option.map_eq_some_iff.mp h
  obtain ⟨hi, rfl⟩ := List.getElem?_eq_some_iff.mp hb
  obtain ⟨rfl, rfl⟩ := Prod.mk.inj hpair
  rw [Tally.upTo_succ hi, Tally.lexer_read, Tally.lexer_upTo]
  exact ⟨hi, rfl, rfl⟩

theorem leftOpen_of_lastCode (h : bytes.length ≤ maxOffset)
    (ho : Tally.LastCode bytes o bytes.length) :
    LeftOpen bytes (Lexer.start.readings bytes)
      (Tally.upTo bytes bytes.length).lexer.region o where
  lt_length := ho.lt
  from_code := ⟨_, counted_upTo h (Nat.le_of_lt ho.lt), ho.code⟩
  delimiter := by
    have hcode := ho.code
    rw [Tally.lexer_upTo] at hcode
    rw [ho.delimiter_eq (Nat.le_refl _), Tally.upTo_succ ho.lt, Tally.lexer_read, Tally.lexer_upTo,
      List.take_succ_eq_append_getElem ho.lt]
    exact Lexer.delimiter_suffix hcode _
  stays := by
    intro i role region hi hread
    obtain ⟨hlt, -, rfl⟩ := of_getElem?_readings hread
    have hbefore := ho.of_le (Nat.lt_succ_of_le hi) hlt
    refine ⟨hbefore.left (i + 1) (by omega) (Nat.le_refl _), ?_⟩
    exact (hbefore.delimiter_eq hlt).trans (ho.delimiter_eq (Nat.le_refl _)).symm

theorem countsBehind_of_lastCode (h : bytes.length ≤ maxOffset)
    (ho : Tally.LastCode bytes o bytes.length) :
    CountsBehind bytes (Lexer.start.readings bytes) o (Tally.upTo bytes (o + 1))
      (.ofTally (Tally.upTo bytes bytes.length)) where
  structural_iff := by
    intro i b role region t hi hb hread ht
    obtain ⟨hlt, rfl, -⟩ := of_getElem?_readings hread
    obtain ⟨-, rfl⟩ := List.getElem?_eq_some_iff.mp hb
    rw [ht.eq_upTo h]
    exact Lexer.isStructural_role_iff (ho.left i hi (Nat.le_of_lt hlt))
  not_structural := by
    intro hlast i role region hi hread
    obtain ⟨hlt, rfl, -⟩ := of_getElem?_readings hread
    rw [Bool.eq_false_iff, ne_eq,
      Lexer.isStructural_role_iff (ho.left i hi (Nat.le_of_lt hlt))]
    rintro ⟨depth, hr, -⟩
    have hsame := ho.delimiter_eq (Nat.le_refl _)
    rw [← (ho.of_le hi (Nat.le_of_lt hlt)).delimiter_eq (Nat.le_of_lt hlt), hr] at hsame
    obtain ⟨depth', hlast'⟩ := Region.exists_template_of_delimiter hsame
    exact hlast depth' hlast'
  finalDepth := (ho.onTop (Nat.le_refl _)).depth
  unclosed := by
    obtain ⟨inner, hpending, hlength, hafter⟩ := (ho.onTop (Nat.le_refl _)).pending
    refine ⟨inner.reverse, ?_, ?_, fun i hi => hafter i (List.mem_reverse.mp hi)⟩
    · rw [Balance.ofTally, Tally.unclosed, hpending, List.reverse_append]
      rfl
    · rw [List.length_reverse, hlength]
      rfl
  firstNegative := (ho.onTop (Nat.le_refl _)).firstNegative

theorem openAtEnd_of_mem_findings {r : Balance} {length : Nat} {d : Diagnostic}
    (hd : d ∈ r.findings length) (hc : d.code = .openAtEnd) :
    r.endRegion.isOpenAtEnd = true ∧ d = r.openAtEndFinding length := by
  rw [Balance.findings, List.mem_append, List.mem_append, List.mem_map] at hd
  obtain (hstray | ⟨o, -, rfl⟩) | hend := hd
  · obtain ⟨c, -, rfl⟩ := Option.map_eq_some_iff.mp (Option.mem_toList.mp hstray)
    cases hc
  · cases hc
  · split at hend
    · exact ⟨‹_›, List.mem_singleton.mp hend⟩
    · cases hend

/-- How far the diagnostic at the end of a text is right that no brace behind the opening delimiter
has been counted. It is for a comment or a quoted string. Behind the backtick of a template literal, the
braces count that stand in placeholders, unescaped, and close none; they leave as many open as the last
placeholder has beyond its own, and no first negative depth. -/
theorem braces_behind_delimiter (bytes : List UInt8) (h : bytes.length < maxOffset) :
    ∃ readings r, Lexer.start.trace bytes = .ok readings ∧ (ofBytes bytes).balance = .ok r ∧
      ∀ d ∈ r.findings bytes.length, d.code = .openAtEnd →
        d.notes = ["braces after the opening delimiter were not counted"] ∧
        ∃ o base, LeftOpen bytes readings r.endRegion o ∧ Counted bytes (o + 1) base ∧
          CountsBehind bytes readings o base r := by
  have hle := Nat.le_of_lt h
  have hupTo : Tally.start.readAll bytes.zipIdx = Tally.upTo bytes bytes.length := by
    rw [Tally.upTo, List.take_length]
  refine ⟨_, _, Lexer.start_trace hle, balance_ofBytes hle, fun d hd hc => ?_⟩
  obtain ⟨hopen, rfl⟩ := openAtEnd_of_mem_findings hd hc
  rw [hupTo] at hopen ⊢
  have hlast : (Tally.upTo bytes bytes.length).lexer.region ≠ .code := by
    intro hcode
    rw [Balance.ofTally, hcode] at hopen
    cases hopen
  obtain ⟨o, ho⟩ := Tally.exists_lastCode hlast
  exact ⟨rfl, o, _, leftOpen_of_lastCode hle ho, counted_upTo hle ho.lt,
    countsBehind_of_lastCode hle ho⟩

/-- A brace left open in a placeholder that does not end is one more than at the backtick. -/
theorem brace_left_in_placeholder :
    ∃ readings, ∃ r : Balance, ∃ d ∈ r.findings 5, ∃ o, ∃ base : Tally,
      Lexer.start.trace [Byte.closeBrace, Byte.backtick, Byte.dollar, Byte.openBrace,
        Byte.openBrace] = .ok readings ∧
      (ofBytes [Byte.closeBrace, Byte.backtick, Byte.dollar, Byte.openBrace,
        Byte.openBrace]).balance = .ok r ∧
      d.code = .openAtEnd ∧
      LeftOpen [Byte.closeBrace, Byte.backtick, Byte.dollar, Byte.openBrace, Byte.openBrace]
        readings (.template 2) o ∧
      Counted [Byte.closeBrace, Byte.backtick, Byte.dollar, Byte.openBrace, Byte.openBrace]
        (o + 1) base ∧
      r.finalDepth = 0 ∧ base.depth = -1 ∧ base.firstNegative = some 0 := by
  obtain ⟨readings, r, ht, hb, hnote⟩ := braces_behind_delimiter [Byte.closeBrace, Byte.backtick,
    Byte.dollar, Byte.openBrace, Byte.openBrace] (by decide)
  have hscan : (ofBytes [Byte.closeBrace, Byte.backtick, Byte.dollar, Byte.openBrace,
      Byte.openBrace]).balance = .ok ⟨0, some 0, [4], .template 2⟩ := rfl
  obtain rfl : r = ⟨0, some 0, [4], .template 2⟩ := Except.ok.inj (hb.symm.trans hscan)
  have hd : Balance.openAtEndFinding ⟨0, some 0, [4], .template 2⟩ 5 ∈
      Balance.findings ⟨0, some 0, [4], .template 2⟩ 5 := by decide
  obtain ⟨-, o, base, hopen, hbase, hcounts⟩ := hnote _ hd rfl
  have hdepth : 0 = base.depth + 1 := hcounts.finalDepth
  exact ⟨readings, _, _, hd, o, base, ht, hb, rfl, hopen, hbase, rfl, by omega,
    hcounts.firstNegative.symm⟩

/-- The diagnostic can be wrong: the last byte of this text has counted, behind the backtick, and is
reported as left open. -/
theorem counted_despite_note :
    ∃ r : Balance, ∃ d ∈ r.findings 4,
      Lexer.start.trace [Byte.backtick, Byte.dollar, Byte.openBrace, Byte.openBrace] =
        .ok [(.inert, .template 0), (.inert, .template 0), (.placeholderOpen, .template 1),
          (.openBrace, .template 2)] ∧
      (ofBytes [Byte.backtick, Byte.dollar, Byte.openBrace, Byte.openBrace]).balance = .ok r ∧
      d.code = .openAtEnd ∧ d.notes = ["braces after the opening delimiter were not counted"] ∧
      r.finalDepth = 1 ∧ r.unclosed = [3] :=
  ⟨⟨1, none, [3], .template 2⟩, Balance.openAtEndFinding ⟨1, none, [3], .template 2⟩ 4, by decide,
    rfl, rfl, rfl, rfl, rfl, rfl⟩

end Buffer

end BraceBalance
