import BraceBalance.Proofs.Reading

/-!
# What the lexer remembers

A lexer's state holds the byte before and whether that byte was escaped, but in each region it looks
only at a part of this: in code whether a slash or an escape stands before, in a block comment
whether a star does, in a line comment at nothing. Two states that agree on their region and on that
part read every text alike. A lexer that has just read an opening brace in code remembers nothing,
so it goes on as one that starts there.
-/

namespace BraceBalance

namespace Lexer

variable {s t : Lexer}

/-- A lexer in region `r` with nothing read. -/
def startIn (r : Region) : Lexer := ⟨r, none, false⟩

/-- What the lexer still looks at: whether the byte before may begin a two-byte sequence, and
whether it escapes the next. -/
def memory (s : Lexer) : Bool × Bool :=
  match s.region with
  | .code => (decide (s.last = some Byte.slash), s.escapes)
  | .lineComment => (false, false)
  | .blockComment => (decide (s.last = some Byte.star), false)
  | .quoted _ => (false, s.escapes)
  | .template 0 => (decide (s.last = some Byte.dollar ∧ s.lastEscaped = false), s.escapes)
  | .template (_ + 1) => (false, s.escapes)

theorem memory_startIn (r : Region) : (startIn r).memory = (false, false) := by
  cases r with
  | template depth => cases depth <;> rfl
  | _ => rfl

/-- A comment remembers no more than a star, whatever its bytes would escape elsewhere. -/
theorem memory_step_of_isComment (hc : s.region.isComment = true) (b : UInt8) :
    (s.step b).memory = (decide (s.region = .blockComment ∧ b = Byte.star), false) := by
  cases hs : s.region with
  | lineComment =>
    by_cases hb : b = Byte.newline
    · simp [step, move, hs, moveInLineComment, Move.single, hb, memory, escapes, Byte.newline,
        Byte.slash, Byte.backslash]
    · simp [step, move, hs, moveInLineComment, Move.single, hb, memory]
  | blockComment =>
    by_cases hb : s.last = some Byte.star ∧ b = Byte.slash
    · simp [step, move, hs, moveInBlockComment, Move.pair, hb, memory, escapes, Byte.slash, Byte.star]
    · simp [step, move, hs, moveInBlockComment, Move.single, hb, memory]
  | code | quoted q | template depth => simp [hs, Region.isComment] at hc

/-- The same region, and the same memory of what was read. -/
structure Agrees (s t : Lexer) : Prop where
  region : s.region = t.region
  memory : s.memory = t.memory

namespace Agrees

theorem refl (s : Lexer) : Agrees s s := ⟨rfl, rfl⟩

/-- Outside comments the memory includes whether the next byte is escaped. -/
theorem escapes (h : Agrees s t) (hc : s.region.isComment = false) : s.escapes = t.escapes := by
  have hm := congrArg Prod.snd h.memory
  rw [Lexer.memory, Lexer.memory, ← h.region] at hm
  cases hs : s.region with
  | lineComment => simp [hs, Region.isComment] at hc
  | blockComment => simp [hs, Region.isComment] at hc
  | code => simpa only [hs] using hm
  | quoted q => simpa only [hs] using hm
  | template depth => cases depth <;> simpa only [hs] using hm

/-- Agreeing states do the same on every byte. -/
theorem move_eq (h : Agrees s t) (b : UInt8) : s.move b = t.move b := by
  have he := h.escapes
  obtain ⟨hr, hm⟩ := h
  cases hs : s.region with
  | code =>
    have ht : t.region = .code := hr ▸ hs
    have hl : s.last = some Byte.slash ↔ t.last = some Byte.slash := by
      simpa [Lexer.memory, hs, ht] using congrArg Prod.fst hm
    simp only [move, hs, ht, moveInCode, hl, he (by rw [hs]; rfl)]
  | lineComment => simp only [move, hs, ← hr]
  | blockComment =>
    have ht : t.region = .blockComment := hr ▸ hs
    have hl : s.last = some Byte.star ↔ t.last = some Byte.star := by
      simpa [Lexer.memory, hs, ht] using congrArg Prod.fst hm
    simp only [move, hs, ht, moveInBlockComment, hl]
  | quoted q => simp only [move, hs, ← hr, he (by rw [hs]; rfl)]
  | template depth =>
    have he := he (by rw [hs]; rfl)
    cases depth with
    | zero =>
      have ht : t.region = .template 0 := hr ▸ hs
      have hl : s.last = some Byte.dollar ∧ s.lastEscaped = false ↔
          t.last = some Byte.dollar ∧ t.lastEscaped = false := by
        simpa only [Lexer.memory, hs, ht, decide_eq_decide] using congrArg Prod.fst hm
      simp only [move, hs, ht, moveInTemplateText, he, hl]
    | succ depth => simp only [move, hs, ← hr, he]

theorem role_eq (h : Agrees s t) (b : UInt8) : s.role b = t.role b := by
  rw [role, role, h.move_eq]

/-- Agreement is kept byte by byte. Outside comments the next states are even equal. -/
theorem step (h : Agrees s t) (b : UInt8) : Agrees (s.step b) (t.step b) := by
  cases hc : s.region.isComment with
  | false =>
    have he : s.step b = t.step b := by simp only [Lexer.step, h.move_eq, h.escapes hc]
    rw [he]
    exact refl _
  | true =>
    refine ⟨by rw [region_step, region_step, h.move_eq], ?_⟩
    rw [memory_step_of_isComment hc, memory_step_of_isComment (h.region ▸ hc), h.region]

/-- Agreeing states read every text alike. -/
theorem readings_eq (h : Agrees s t) (bytes : List UInt8) : s.readings bytes = t.readings bytes := by
  induction bytes generalizing s t with
  | nil => rfl
  | cons b bytes ih =>
    rw [readings_cons, readings_cons, h.role_eq, (h.step b).region, ih (h.step b)]

theorem roles_eq (h : Agrees s t) (bytes : List UInt8) : s.roles bytes = t.roles bytes :=
  congrArg (List.map Prod.fst) (h.readings_eq bytes)

theorem after (h : Agrees s t) (bytes : List UInt8) : Agrees (s.after bytes) (t.after bytes) := by
  induction bytes generalizing s t with
  | nil => exact h
  | cons b bytes ih => exact ih (h.step b)

end Agrees

/-- A brace in code counts whatever stands before it. -/
theorem move_openBrace (h : s.region = .code) :
    s.move Byte.openBrace = .single .openBrace .code := by
  simp [move, h, moveInCode, Byte.openBrace, Byte.slash, Byte.star, Byte.singleQuote,
    Byte.doubleQuote, Byte.backtick]

/-- A slash in code completes a comment's marker, or stands for itself. -/
theorem move_slash (h : s.region = .code) :
    s.move Byte.slash =
      if s.last = some Byte.slash then .pair .inert .lineComment else .single .code .code := by
  simp [move, h, moveInCode, Byte.slash, Byte.star, Byte.singleQuote, Byte.doubleQuote,
    Byte.backtick, Byte.openBrace, Byte.closeBrace]

/-- An opening brace counts in code, and in a placeholder unless it is escaped. -/
theorem role_eq_openBrace_iff {b : UInt8} :
    s.role b = .openBrace ↔ b = Byte.openBrace ∧
      (s.region = .code ∨ ∃ depth, s.region = .template (depth + 1) ∧ s.escapes = false) := by
  rw [role, move]
  cases hs : s.region with
  | code => grind [moveInCode, Move.single, Move.pair]
  | lineComment => simp [moveInLineComment, Move.single]
  | blockComment => grind [moveInBlockComment, Move.single, Move.pair]
  | quoted q => simp [moveInQuoted, Move.single]
  | template depth =>
    cases depth with
    | zero => grind [moveInTemplateText, Move.single, Move.pair]
    | succ depth => grind [moveInPlaceholder, Move.single]

/-- A closing brace counts in code, and in a placeholder if a brace is open there and it is not
escaped. -/
theorem role_eq_closeBrace_iff {b : UInt8} :
    s.role b = .closeBrace ↔ b = Byte.closeBrace ∧
      (s.region = .code ∨ ∃ depth, s.region = .template (depth + 2) ∧ s.escapes = false) := by
  rw [role, move]
  cases hs : s.region with
  | code => grind [moveInCode, Move.single, Move.pair]
  | lineComment => simp [moveInLineComment, Move.single]
  | blockComment => grind [moveInBlockComment, Move.single, Move.pair]
  | quoted q => simp [moveInQuoted, Move.single]
  | template depth =>
    cases depth with
    | zero => grind [moveInTemplateText, Move.single, Move.pair]
    | succ depth => cases depth <;> grind [moveInPlaceholder, Move.single]

theorem role_openBrace (h : s.region = .code) : s.role Byte.openBrace = .openBrace :=
  role_eq_openBrace_iff.mpr ⟨rfl, .inl h⟩

theorem role_closeBrace (h : s.region = .code) : s.role Byte.closeBrace = .closeBrace :=
  role_eq_closeBrace_iff.mpr ⟨rfl, .inl h⟩

theorem step_of_single {b : UInt8} {role : Role} {region : Region} (h : s.move b = .single role region) :
    s.step b = ⟨region, some b, s.escapes⟩ := by
  rw [step, h]
  rfl

/-- A backslash changes no region and completes no pair. -/
theorem step_backslash (s : Lexer) :
    s.step Byte.backslash = ⟨s.region, some Byte.backslash, s.escapes⟩ := by
  have hm : ∃ role, s.move Byte.backslash = .single role s.region := by
    rw [move]
    cases s.region with
    | code => exact ⟨.code, by simp [moveInCode, Byte.backslash, Byte.slash, Byte.star,
        Byte.singleQuote, Byte.doubleQuote, Byte.backtick, Byte.openBrace, Byte.closeBrace]⟩
    | lineComment => exact ⟨.inert, rfl⟩
    | blockComment => exact ⟨.inert, by simp [moveInBlockComment, Byte.backslash, Byte.slash]⟩
    | quoted q => exact ⟨.inert, by cases q <;> simp [moveInQuoted, Quote.byte, Byte.backslash,
        Byte.singleQuote, Byte.doubleQuote]⟩
    | template depth =>
      cases depth with
      | zero => exact ⟨.inert, by simp [moveInTemplateText, Byte.backslash, Byte.backtick,
          Byte.openBrace]⟩
      | succ depth => exact ⟨.code, by simp [moveInPlaceholder, Byte.backslash, Byte.backtick,
          Byte.openBrace, Byte.closeBrace]⟩
  obtain ⟨role, hm⟩ := hm
  exact step_of_single hm

/-- A byte is remembered, unless it completes a pair. -/
theorem last_step (s : Lexer) (b : UInt8) : (s.step b).last = none ∨ (s.step b).last = some b := by
  rw [step]
  split
  · exact .inl rfl
  · exact .inr rfl

/-- A backslash escapes what comes next, unless it is itself escaped. -/
theorem escapes_step_iff (s : Lexer) (b : UInt8) :
    (s.step b).escapes = true ↔ b = Byte.backslash ∧ s.escapes = false := by
  by_cases hb : b = Byte.backslash
  · simp only [hb, step_backslash, escapes, beq_self_eq_true, Bool.true_and, Bool.not_eq_true',
      true_and]
  · have hlast : (s.step b).last ≠ some Byte.backslash := by
      obtain hnone | hsome := last_step s b
      · simp [hnone]
      · simpa [hsome] using hb
    simp [escapes, hlast, hb]

/-- A byte that is remembered is the last one. -/
theorem exists_step_of_last_after {bytes : List UInt8} {b : UInt8}
    (h : (start.after bytes).last = some b) :
    ∃ init, bytes = init ++ [b] ∧ start.after bytes = (start.after init).step b := by
  obtain rfl | ⟨init, c, rfl⟩ := List.eq_nil_or_concat bytes
  · cases h
  · rw [List.concat_eq_append, after_append] at h ⊢
    obtain hnone | hsome := last_step (start.after init) c
    · cases hnone.symm.trans h
    · obtain rfl : c = b := Option.some.inj (hsome.symm.trans h)
      exact ⟨init, rfl, rfl⟩

theorem getLast?_of_last_after {bytes : List UInt8} {b : UInt8}
    (h : (start.after bytes).last = some b) :
    bytes.getLast? = some b := by
  obtain ⟨init, rfl, -⟩ := exists_step_of_last_after h
  exact List.getLast?_concat

/-- In code, with neither a slash nor a backslash before, the lexer goes on as one that starts there. -/
theorem agrees_start_of_code (h : s.region = .code) (hs : s.last ≠ some Byte.slash)
    (hb : s.last ≠ some Byte.backslash) : Agrees s start := by
  refine ⟨h, ?_⟩
  simp [memory, h, start, escapes, hs, hb]

/-- After an opening brace in code the lexer goes on as one that starts there. -/
theorem agrees_start_of_openBrace (h : s.region = .code) :
    Agrees (s.step Byte.openBrace) start := by
  have hm := move_openBrace h
  constructor
  · rw [region_step, hm]
    rfl
  · simp [step, hm, Move.single, memory, start, escapes, Byte.openBrace, Byte.slash, Byte.backslash]

end Lexer

end BraceBalance
