import BraceBalance.Proofs.Memory

/-!
# Tokens

The rules of the regions as a reader with lookahead would state them: at the front of a text stands
a token of two bytes or of one, and what it means depends on the region alone. A backslash takes the
byte after it into its token, so nothing has to be remembered from one token to the next. The lexer,
which never looks ahead, gives every byte the role it has in this reading and ends in the same region.
-/

namespace BraceBalance

namespace Token

/-- The roles of two bytes that are one token, and the region after them. -/
def pair : Region → UInt8 → UInt8 → Option (Role × Role × Region)
  | .code, b, c =>
    if b = Byte.slash ∧ c = Byte.slash then some (.code, .inert, .lineComment)
    else if b = Byte.slash ∧ c = Byte.star then some (.code, .inert, .blockComment)
    else if b = Byte.backslash ∧
        (c = Byte.backslash ∨ c = Byte.singleQuote ∨ c = Byte.doubleQuote) then
      some (.code, .code, .code)
    else none
  | .lineComment, _, _ => none
  | .blockComment, b, c =>
    if b = Byte.star ∧ c = Byte.slash then some (.inert, .inert, .code) else none
  | .quoted q, b, _ => if b = Byte.backslash then some (.inert, .inert, .quoted q) else none
  | .template 0, b, c =>
    if b = Byte.backslash then some (.inert, .inert, .template 0)
    else if b = Byte.dollar ∧ c = Byte.openBrace then some (.inert, .placeholderOpen, .template 1)
    else none
  | .template (depth + 1), b, _ =>
    if b = Byte.backslash then some (.code, .code, .template (depth + 1)) else none

/-- The role of a byte that is a token alone, and the region after it. -/
def single : Region → UInt8 → Role × Region
  | .code, b =>
    if b = Byte.singleQuote then (.inert, .quoted .single)
    else if b = Byte.doubleQuote then (.inert, .quoted .double)
    else if b = Byte.backtick then (.inert, .template 0)
    else if b = Byte.openBrace then (.openBrace, .code)
    else if b = Byte.closeBrace then (.closeBrace, .code)
    else (.code, .code)
  | .lineComment, b => (.inert, if b = Byte.newline then .code else .lineComment)
  | .blockComment, _ => (.inert, .blockComment)
  | .quoted q, b => (.inert, if b = q.byte then .code else .quoted q)
  | .template 0, b => (.inert, if b = Byte.backtick then .code else .template 0)
  | .template (depth + 1), b =>
    if b = Byte.backtick then (.inert, .code)
    else if b = Byte.openBrace then (.openBrace, .template (depth + 2))
    else if b = Byte.closeBrace then
      (if depth = 0 then .placeholderClose else .closeBrace, .template depth)
    else (.code, .template (depth + 1))

/-- Whether the byte can be the first of two that are one token. -/
def opens : Region → UInt8 → Bool
  | .code, b => b == Byte.slash || b == Byte.backslash
  | .lineComment, _ => false
  | .blockComment, b => b == Byte.star
  | .quoted _, b => b == Byte.backslash
  | .template 0, b => b == Byte.backslash || b == Byte.dollar
  | .template (_ + 1), b => b == Byte.backslash

/-- Reads a text token by token: the role of each byte, and the region at the end. -/
def read (r : Region) : List UInt8 → List Role × Region
  | [] => ([], r)
  | [b] => ([(single r b).1], (single r b).2)
  | b :: c :: rest =>
    match pair r b c with
    | some (first, second, r') => (first :: second :: (read r' rest).1, (read r' rest).2)
    | none => ((single r b).1 :: (read (single r b).2 (c :: rest)).1,
        (read (single r b).2 (c :: rest)).2)

end Token

namespace Lexer

open Token

/-- The lexer's own reading of a text, in the form of `Token.read`. -/
def read (s : Lexer) (bytes : List UInt8) : List Role × Region :=
  (s.roles bytes, (s.after bytes).region)

theorem read_cons (s : Lexer) (b : UInt8) (bytes : List UInt8) :
    s.read (b :: bytes) = (s.role b :: ((s.step b).read bytes).1, ((s.step b).read bytes).2) := rfl

theorem Agrees.read_eq {s t : Lexer} (h : Agrees s t) (bytes : List UInt8) :
    s.read bytes = t.read bytes := by
  rw [read, read, h.roles_eq, (h.after bytes).region]

/-- With nothing read before, a byte does what it does as a token alone. -/
theorem move_startIn (r : Region) (b : UInt8) :
    (startIn r).move b = .single (single r b).1 (single r b).2 := by
  cases r with
  | code => grind [move, startIn, escapes, moveInCode, single, Move.single]
  | lineComment => rfl
  | blockComment => grind [move, startIn, moveInBlockComment, single]
  | quoted q => grind [move, startIn, escapes, moveInQuoted, single]
  | template depth =>
    cases depth with
    | zero => grind [move, startIn, escapes, moveInTemplateText, single, Move.single]
    | succ depth => grind [move, startIn, escapes, moveInPlaceholder, single, Move.single]

theorem step_startIn (r : Region) (b : UInt8) :
    (startIn r).step b = ⟨(single r b).2, some b, false⟩ := by
  rw [step, move_startIn]
  rfl

/-- What a byte that is not escaped leaves behind is the chance to open a token. -/
theorem memory_eq_nothing_iff (r : Region) (b : UInt8) :
    (⟨r, some b, false⟩ : Lexer).memory = (false, false) ↔ opens r b = false := by
  cases r with
  | template depth => cases depth <;> simp [memory, escapes, opens, and_comm]
  | _ => simp [memory, escapes, opens]

theorem opens_single {r : Region} {b : UInt8} (h : opens r b = false) :
    opens (single r b).2 b = false := by
  cases r with
  | code => grind [opens, single]
  | lineComment => grind [opens, single]
  | blockComment => exact h
  | quoted q => cases q <;> grind [opens, single, Quote.byte]
  | template depth =>
    cases depth with
    | zero => grind [opens, single]
    | succ depth => cases depth <;> grind [opens, single]

/-- After a byte that opens no token of two, nothing is remembered. -/
theorem agrees_of_not_opens {r : Region} {b : UInt8} (h : opens r b = false) :
    Agrees ((startIn r).step b) (startIn (single r b).2) := by
  rw [step_startIn]
  refine ⟨rfl, ?_⟩
  rw [memory_startIn, memory_eq_nothing_iff]
  exact opens_single h

/-- A byte that opens a token of two leaves the region as it is. -/
theorem single_of_opens {r : Region} {b : UInt8} (h : opens r b = true) : (single r b).2 = r := by
  cases r with
  | code => grind [opens, single]
  | lineComment => cases h
  | blockComment => rfl
  | quoted q => cases q <;> grind [opens, single, Quote.byte]
  | template depth => cases depth <;> grind [opens, single]

/-- Unless two bytes are one token, the second one does what it does as the first of its own. -/
theorem move_of_pair_eq_none {r : Region} {b c : UInt8} (ho : opens r b = true)
    (h : pair r b c = none) : (⟨r, some b, false⟩ : Lexer).move c = (startIn r).move c := by
  cases r with
  | code =>
    simp only [opens, Bool.or_eq_true, beq_iff_eq] at ho
    obtain rfl | rfl := ho
    · have hc : c ≠ Byte.slash ∧ c ≠ Byte.star := by grind [pair]
      simp [move, moveInCode, startIn, escapes, hc, Byte.slash, Byte.backslash]
    · have hc : c ≠ Byte.singleQuote ∧ c ≠ Byte.doubleQuote := by grind [pair]
      simp [move, moveInCode, startIn, escapes, hc, Byte.slash, Byte.backslash]
  | lineComment => rfl
  | blockComment =>
    have hc : c ≠ Byte.slash := by grind [pair, opens]
    simp [move, moveInBlockComment, startIn, hc]
  | quoted q => grind [pair, opens]
  | template depth =>
    cases depth with
    | zero =>
      have hb : b = Byte.dollar ∧ c ≠ Byte.openBrace := by grind [pair, opens]
      simp [move, moveInTemplateText, startIn, escapes, hb, Byte.dollar, Byte.backslash]
    | succ depth => grind [pair, opens]

/-- A byte that can neither escape nor mark a placeholder is remembered alike, escaped or not. -/
theorem agrees_of_lastEscaped {r : Region} {c : UInt8} (hb : c ≠ Byte.backslash)
    (hd : r = .template 0 → c ≠ Byte.dollar) (e : Bool) :
    Agrees ⟨r, some c, e⟩ ⟨r, some c, false⟩ := by
  refine ⟨rfl, ?_⟩
  cases r with
  | template depth => cases depth <;> simp [memory, escapes, hb, hd]
  | _ => simp [memory, escapes, hb]

/-- After two bytes that are no token the first one is forgotten. -/
theorem agrees_of_pair_eq_none {r : Region} {b c : UInt8} (ho : opens r b = true)
    (h : pair r b c = none) :
    Agrees ((⟨r, some b, false⟩ : Lexer).step c) ((startIn r).step c) := by
  have hs : (⟨r, some b, false⟩ : Lexer).step c =
      ⟨(single r c).2, some c, (⟨r, some b, false⟩ : Lexer).escapes⟩ := by
    rw [step, move_of_pair_eq_none ho h, move_startIn]
    rfl
  rw [hs, step_startIn]
  by_cases hb : b = Byte.backslash
  · have hc : r = .code ∧ c ≠ Byte.backslash := by
      cases r with
      | template depth => cases depth <;> grind [pair]
      | _ => grind [pair, opens]
    obtain ⟨rfl, hc⟩ := hc
    exact agrees_of_lastEscaped hc (by grind [single]) _
  · have he : (⟨r, some b, false⟩ : Lexer).escapes = false := by simp [escapes, hb]
    rw [he]
    exact .refl _

/-- Two bytes that are no token: what follows the first is read as if nothing stood before. -/
theorem read_of_pair_eq_none {r : Region} {b c : UInt8} (h : pair r b c = none)
    (rest : List UInt8) :
    ((startIn r).step b).read (c :: rest) = (startIn (single r b).2).read (c :: rest) := by
  cases ho : opens r b with
  | false => exact (agrees_of_not_opens ho).read_eq _
  | true =>
    have ha := agrees_of_pair_eq_none ho h
    rw [step_startIn, single_of_opens ho, read_cons, read_cons, role, role,
      move_of_pair_eq_none ho h, ha.read_eq]

/-- The first of two bytes that are one token has its role without looking at the second. -/
theorem single_of_pair {r r' : Region} {b c : UInt8} {ρ σ : Role}
    (h : pair r b c = some (ρ, σ, r')) : single r b = (ρ, r) := by
  cases r with
  | code => grind [pair, single]
  | lineComment => cases h
  | blockComment => grind [pair, single]
  | quoted q => cases q <;> grind [pair, single, Quote.byte]
  | template depth => cases depth <;> grind [pair, single]

/-- What the second byte of a token does: it completes a marker, or it is escaped. -/
theorem move_of_pair {r r' : Region} {b c : UInt8} {ρ σ : Role}
    (h : pair r b c = some (ρ, σ, r')) :
    (⟨r, some b, false⟩ : Lexer).move c = .pair σ r' ∨
      b = Byte.backslash ∧ r' = r ∧ (r = .code → c ≠ Byte.slash) ∧
        (⟨r, some b, false⟩ : Lexer).move c = .single σ r := by
  cases r with
  | code =>
    rw [pair] at h
    split at h
    case isTrue hp =>
      obtain ⟨rfl, rfl⟩ := hp
      cases h
      exact .inl (by decide)
    split at h
    case isTrue hp =>
      obtain ⟨rfl, rfl⟩ := hp
      cases h
      exact .inl (by decide)
    split at h
    case isTrue hp =>
      obtain ⟨rfl, hc⟩ := hp
      cases h
      obtain rfl | rfl | rfl := hc <;> exact .inr ⟨rfl, rfl, by decide, by decide⟩
    case isFalse => cases h
  | lineComment => simp [pair] at h
  | blockComment =>
    have hp : b = Byte.star ∧ c = Byte.slash ∧ σ = .inert ∧ r' = .code := by grind [pair]
    obtain ⟨rfl, rfl, rfl, rfl⟩ := hp
    exact .inl (by decide)
  | quoted q =>
    have hp : b = Byte.backslash ∧ σ = .inert ∧ r' = .quoted q := by grind [pair]
    obtain ⟨rfl, rfl, rfl⟩ := hp
    exact .inr ⟨rfl, rfl, by simp, by simp [move, moveInQuoted, escapes]⟩
  | template depth =>
    cases depth with
    | zero =>
      have hp : b = Byte.backslash ∧ σ = .inert ∧ r' = .template 0 ∨
          b = Byte.dollar ∧ c = Byte.openBrace ∧ σ = .placeholderOpen ∧ r' = .template 1 := by
        grind [pair]
      obtain ⟨rfl, rfl, rfl⟩ | ⟨rfl, rfl, rfl, rfl⟩ := hp
      · exact .inr ⟨rfl, rfl, by simp, by simp [move, moveInTemplateText, escapes, Byte.backslash,
          Byte.dollar]⟩
      · exact .inl (by decide)
    | succ depth =>
      have hp : b = Byte.backslash ∧ σ = .code ∧ r' = .template (depth + 1) := by grind [pair]
      obtain ⟨rfl, rfl, rfl⟩ := hp
      exact .inr ⟨rfl, rfl, by simp, by simp [move, moveInPlaceholder, escapes]⟩

/-- After two bytes that are one token nothing is remembered. -/
theorem agrees_of_pair {r r' : Region} {b c : UInt8} {ρ σ : Role}
    (h : pair r b c = some (ρ, σ, r')) :
    (⟨r, some b, false⟩ : Lexer).role c = σ ∧
      Agrees ((⟨r, some b, false⟩ : Lexer).step c) (startIn r') := by
  obtain hm | ⟨rfl, rfl, hc, hm⟩ := move_of_pair h
  · refine ⟨by rw [role, hm, Move.pair], ?_⟩
    rw [step, hm]
    exact .refl _
  · refine ⟨by rw [role, hm, Move.single], ?_⟩
    rw [step, hm]
    refine ⟨rfl, ?_⟩
    rw [memory_startIn]
    cases r' with
    | template depth => cases depth <;> simp [Move.single, memory, escapes]
    | lineComment => rfl
    | blockComment => simp [pair, Byte.backslash, Byte.star] at h
    | quoted q => simp [Move.single, memory, escapes]
    | code => simp [Move.single, memory, escapes, hc]

/-- Without looking ahead, the lexer reads every text token by token. -/
theorem read_startIn (r : Region) (bytes : List UInt8) :
    (startIn r).read bytes = Token.read r bytes := by
  fun_induction Token.read r bytes with
  | case1 r => rfl
  | case2 r b => simp [read, role, move_startIn, step_startIn, Move.single]
  | case3 r b c rest first second r' h ih =>
    have hs : (startIn r).step b = ⟨r, some b, false⟩ := by rw [step_startIn, single_of_pair h]
    have hb : (startIn r).role b = first := by
      rw [role, move_startIn, single_of_pair h, Move.single]
    obtain ⟨hc, ha⟩ := agrees_of_pair h
    rw [read_cons, hb, hs, read_cons, hc, ha.read_eq, ih]
  | case4 r b c rest h ih =>
    have hb : (startIn r).role b = (single r b).1 := by rw [role, move_startIn, Move.single]
    rw [read_cons, hb, read_of_pair_eq_none h, ih]

/-- The lexer, which never looks ahead, gives each byte of a text the role it has for a reader that
goes token by token, and ends in the region where that reader ends. -/
theorem start_trace_eq_tokens (bytes : List UInt8) (h : bytes.length ≤ maxOffset) :
    ∃ readings last, start.trace bytes = .ok readings ∧ start.run bytes = .ok last ∧
      (readings.map Prod.fst, last.region) = Token.read .code bytes :=
  ⟨start.readings bytes, start.after bytes, start_trace h, start_run h, read_startIn .code bytes⟩

/-- The marker of an escaped dollar opens no placeholder; the next one does. -/
theorem start_trace_of_escaped_marker :
    ∃ readings last,
      start.trace [Byte.backtick, Byte.backslash, Byte.dollar, Byte.openBrace, Byte.dollar,
        Byte.openBrace, Byte.closeBrace, Byte.backtick] = .ok readings ∧
      start.run [Byte.backtick, Byte.backslash, Byte.dollar, Byte.openBrace, Byte.dollar,
        Byte.openBrace, Byte.closeBrace, Byte.backtick] = .ok last ∧
      (readings.map Prod.fst, last.region) =
        ([.inert, .inert, .inert, .inert, .inert, .placeholderOpen, .placeholderClose, .inert],
          .code) :=
  start_trace_eq_tokens _ (by decide)

end Lexer

end BraceBalance
