import BraceBalance.Proofs.Spans
import BraceBalance.Proofs.Tokens

/-!
# Continuations

What two states of the lexer have in common is how they read the texts that may follow. States that
agree read every continuation alike, up to the fault if there is one, and states that do not agree are
told apart by a single byte. So the memory of a state is just what can still be seen of the text before
it. It is empty after a byte that the next one cannot go together with, and whenever the lexer has
come back to code.
-/

namespace BraceBalance

/-- The bytes that the next one can go together with, as a pair or by an escape, in some region. -/
def Byte.openers : List UInt8 := [Byte.backslash, Byte.slash, Byte.star, Byte.dollar]

theorem Token.opens_of_not_mem_openers {b : UInt8} (h : b ∉ Byte.openers) (r : Region) :
    opens r b = false := by
  simp only [Byte.openers, List.mem_cons, List.not_mem_nil, or_false, not_or] at h
  cases r with
  | template depth => cases depth <;> simp [opens, h]
  | _ => simp [opens, h]

namespace Region

/-- A byte that leaves the region, or enters another one, just as the second of a pair. -/
def completer? : Region → Option UInt8
  | code => some Byte.star
  | blockComment => some Byte.slash
  | template 0 => some Byte.openBrace
  | lineComment | quoted _ | template (_ + 1) => none

/-- A byte that leaves the region, or enters another one, unless it is escaped. -/
def escapable? : Region → Option UInt8
  | code => some Byte.singleQuote
  | quoted q => some q.byte
  | template _ => some Byte.backtick
  | lineComment | blockComment => none

end Region

namespace Lexer

variable {s t : Lexer} {b : UInt8}

/-- The first part of the memory shows at the byte that would complete a pair. -/
theorem memory_fst_iff (s : Lexer) :
    s.memory.1 = true ↔ ∃ b ∈ s.region.completer?, (s.step b).region ≠ s.region := by
  simp only [region_step, move, memory]
  cases s.region with
  | code =>
    simp only [Region.completer?, Option.mem_some_iff, exists_eq_left']
    grind [moveInCode, Move.single, Move.pair]
  | lineComment => simp [Region.completer?]
  | blockComment =>
    simp only [Region.completer?, Option.mem_some_iff, exists_eq_left']
    grind [moveInBlockComment, Move.single, Move.pair]
  | quoted q => simp [Region.completer?]
  | template depth =>
    cases depth with
    | zero =>
      simp only [Region.completer?, Option.mem_some_iff, exists_eq_left']
      grind [moveInTemplateText, Move.single, Move.pair]
    | succ depth => simp [Region.completer?]

/-- The second part shows at a byte that an escape takes its meaning from. -/
theorem memory_snd_iff (s : Lexer) :
    s.memory.2 = true ↔ ∃ b ∈ s.region.escapable?, (s.step b).region = s.region := by
  simp only [region_step, move, memory]
  cases s.region with
  | code =>
    simp only [Region.escapable?, Option.mem_some_iff, exists_eq_left']
    grind [moveInCode, Move.single, Move.pair]
  | lineComment => simp [Region.escapable?]
  | blockComment => simp [Region.escapable?]
  | quoted q =>
    simp only [Region.escapable?, Option.mem_some_iff, exists_eq_left']
    grind [moveInQuoted, Move.single]
  | template depth =>
    cases depth with
    | zero =>
      simp only [Region.escapable?, Option.mem_some_iff, exists_eq_left']
      grind [moveInTemplateText, Move.single, Move.pair]
    | succ depth =>
      simp only [Region.escapable?, Option.mem_some_iff, exists_eq_left']
      grind [moveInPlaceholder, Move.single]

/-- Where both states read a byte alike and the first one without fault, it leads to one region. -/
theorem region_step_of_trace_eq (h : s.trace [b] = t.trace [b])
    (hs : (s.step b).region.placeholderDepth ≤ maxOffset) :
    (t.step b).region = (s.step b).region := by
  rw [trace_eq, trace_eq, if_pos (fits_cons.mpr ⟨hs, fits_nil _⟩)] at h
  split at h
  · exact ((Prod.mk.inj (List.head_eq_of_cons_eq (Except.ok.inj h))).2).symm
  · cases h

/-- Agreeing states read every continuation alike, or meet the same fault in it. -/
theorem Agrees.trace_eq (h : Agrees s t) (bytes : List UInt8) : s.trace bytes = t.trace bytes := by
  have hf : s.Fits bytes ↔ t.Fits bytes := by rw [Fits, Fits, h.readings_eq]
  simp only [Lexer.trace_eq, hf, h.readings_eq]

/-- States that read every single byte alike agree. -/
theorem Agrees.of_trace_eq (hs : s.region.placeholderDepth ≤ maxOffset)
    (h : ∀ b, s.trace [b] = t.trace [b]) : Agrees s t := by
  have hregion : s.region = t.region := by
    have hstep := region_step_of_trace_eq (h Byte.backslash) (by rwa [step_backslash])
    rw [step_backslash, step_backslash] at hstep
    exact hstep.symm
  have hstays : ∀ b, (s.step b).region = s.region ↔ (t.step b).region = t.region := by
    intro b
    constructor
    · intro hb
      rw [region_step_of_trace_eq (h b) (by rwa [hb]), hb, hregion]
    · intro hb
      rw [region_step_of_trace_eq (h b).symm (by rwa [hb, ← hregion]), hb, hregion]
  refine ⟨hregion, Prod.ext ?_ ?_⟩
  · rw [Bool.eq_iff_iff, memory_fst_iff, memory_fst_iff]
    simp only [ne_eq, hstays]
    rw [hregion]
  · rw [Bool.eq_iff_iff, memory_snd_iff, memory_snd_iff]
    simp only [hstays]
    rw [hregion]

/-- Two states agree just if no continuation tells them apart. -/
theorem agrees_iff_trace_eq (hs : s.region.placeholderDepth ≤ maxOffset) :
    Agrees s t ↔ ∀ bytes, s.trace bytes = t.trace bytes :=
  ⟨fun h => h.trace_eq, fun h => .of_trace_eq hs fun b => h [b]⟩

/-- Nothing is remembered of a byte that opens no token where the lexer is. -/
theorem memory_of_not_opens (h : ∀ b, s.last = some b → Token.opens s.region b = false) :
    s.memory = (false, false) := by
  cases hs : s.region with
  | template depth => cases depth <;> grind [memory, escapes, Token.opens]
  | _ => grind [memory, escapes, Token.opens]

/-- Nothing is remembered of a text with an end that the next byte cannot go together with. -/
theorem memory_after {bytes : List UInt8} (h : ∀ b ∈ bytes.getLast?, b ∉ Byte.openers) :
    (start.after bytes).memory = (false, false) := by
  refine memory_of_not_opens fun b hb => ?_
  exact Token.opens_of_not_mem_openers (h b (getLast?_of_last_after hb)) _

/-- A byte that leads from elsewhere into code is not remembered there. -/
theorem agrees_start_of_return (hs : s.region ≠ .code) (h : (s.step b).region = .code) :
    Agrees (s.step b) start := by
  apply agrees_start_of_code h
  · intro hlast
    exact hs (region_of_last_eq_slash h hlast).1
  · intro hlast
    obtain hnone | hsome := last_step s b
    · cases hnone.symm.trans hlast
    · obtain rfl : b = Byte.backslash := Option.some.inj (hsome.symm.trans hlast)
      rw [step_backslash] at h
      exact hs h

/-- A state carries on no more of a text than its region, unless the text ends in a backslash, a slash,
a star or a dollar, and nothing at all once it has come back to code: the lexer then reads every
continuation as one that starts there. -/
theorem continuations_read_alike :
    (∀ (u v : List UInt8) (s t : Lexer), start.run u = .ok s → start.run v = .ok t →
      s.region = t.region → (∀ b ∈ u.getLast?, b ∉ Byte.openers) →
      (∀ b ∈ v.getLast?, b ∉ Byte.openers) → ∀ w, s.trace w = t.trace w) ∧
    ∀ (s : Lexer) (b : UInt8) (role : Role) (next : Lexer), s.feed b = .ok (role, next) →
      s.region ≠ .code → next.region = .code → ∀ w, next.trace w = start.trace w := by
  constructor
  · intro u v s t hs ht hregion hu hv
    obtain rfl := eq_after_of_run hs
    obtain rfl := eq_after_of_run ht
    have hagrees : Agrees (start.after u) (start.after v) :=
      ⟨hregion, (memory_after hu).trans (memory_after hv).symm⟩
    exact hagrees.trace_eq
  · intro s b role next hfeed hs hnext
    obtain rfl := eq_step_of_feed hfeed
    exact (agrees_start_of_return hs hnext).trace_eq

/-- In a placeholder it makes no difference whether the marker was all there was, which is forgotten, or
an escaped letter came after it, which is not; and the backtick that ends the literal there is of no
account in code. -/
theorem continuations_behind_marker :
    ∃ s t u, start.run [Byte.backtick, Byte.dollar, Byte.openBrace] = .ok s ∧
      start.run [Byte.backtick, Byte.dollar, Byte.openBrace, Byte.backslash, 0x78] = .ok t ∧
      start.run [Byte.backtick, Byte.dollar, Byte.openBrace, Byte.backtick] = .ok u ∧
      s ≠ t ∧ u ≠ start ∧ (∀ w, s.trace w = t.trace w) ∧ ∀ w, u.trace w = start.trace w := by
  have hmarker : ∀ b ∈ [Byte.backtick, Byte.dollar, Byte.openBrace].getLast?, b ∉ Byte.openers := by
    rintro b ⟨⟩
    decide
  have hletter : ∀ b ∈ [Byte.backtick, Byte.dollar, Byte.openBrace, Byte.backslash, 0x78].getLast?,
      b ∉ Byte.openers := by
    rintro b ⟨⟩
    decide
  refine ⟨_, _, _, rfl, rfl, rfl, by decide, by decide, ?_, ?_⟩
  · exact continuations_read_alike.1 _ _ _ _ rfl rfl rfl hmarker hletter
  · exact continuations_read_alike.2 ⟨.template 1, none, false⟩ Byte.backtick .inert _ rfl
      (by decide) rfl

end Lexer

end BraceBalance
