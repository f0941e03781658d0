import BraceBalance.Proofs.Boundaries
import BraceBalance.Proofs.Counting
import BraceBalance.Proofs.Memory
import BraceBalance.Proofs.Spans

/-!
# Masking

A brace in a comment, in a literal or behind a backslash of a placeholder means nothing. Written over
with a letter, all such braces of a text at once, it leaves no trace: the lexer does the same on the
letter as on the brace, and afterwards it remembers nothing of either. So the masked text has the
roles, the regions, the spans and the balance of the text, and every brace that is left in it counts
or delimits a placeholder.
-/

namespace BraceBalance

/-- Whether a byte of this role is one of the text's own brackets, those of placeholders included. -/
def Role.isBracket : Role → Bool
  | openBrace | closeBrace | placeholderOpen | placeholderClose => true
  | code | inert => false

def IsBrace (b : UInt8) : Prop := b = Byte.openBrace ∨ b = Byte.closeBrace

instance (b : UInt8) : Decidable (IsBrace b) := inferInstanceAs (Decidable (_ ∨ _))

/-- The letter x in place of a brace that is no bracket; every other byte as it is. -/
def maskByte (r : Role) (b : UInt8) : UInt8 :=
  if IsBrace b ∧ r.isBracket = false then 0x78 else b

theorem maskByte_of_not_isBrace {r : Role} {b : UInt8} (h : ¬ IsBrace b) : maskByte r b = b :=
  if_neg fun hm => h hm.1

/-- A byte that is still a brace was one, and it is a bracket. -/
theorem isBracket_of_isBrace_maskByte {r : Role} {b : UInt8} (h : IsBrace (maskByte r b)) :
    r.isBracket = true := by
  rw [maskByte] at h
  split at h
  case isTrue => exact absurd h (by decide)
  case isFalse hm =>
    cases hr : r.isBracket with
    | true => rfl
    | false => exact absurd ⟨h, hr⟩ hm

namespace Lexer

variable {s t : Lexer}

/-- The bytes of a text read from state `s`, with the braces that are no brackets masked. -/
def mask (s : Lexer) (bytes : List UInt8) : List UInt8 := List.zipWith maskByte (s.roles bytes) bytes

@[simp] theorem mask_nil (s : Lexer) : s.mask [] = [] := rfl

@[simp] theorem mask_cons (s : Lexer) (b : UInt8) (bytes : List UInt8) :
    s.mask (b :: bytes) = maskByte (s.role b) b :: (s.step b).mask bytes := rfl

@[simp] theorem length_mask (s : Lexer) (bytes : List UInt8) :
    (s.mask bytes).length = bytes.length := by
  rw [mask, List.length_zipWith, length_roles, Nat.min_self]

theorem mask_append (s : Lexer) (u v : List UInt8) :
    s.mask (u ++ v) = s.mask u ++ (s.after u).mask v := by
  induction u generalizing s with
  | nil => rfl
  | cons b u ih => simp [ih]

theorem mask_eq_self (s : Lexer) {bytes : List UInt8} (h : ∀ b ∈ bytes, ¬ IsBrace b) :
    s.mask bytes = bytes := by
  induction bytes generalizing s with
  | nil => rfl
  | cons b bytes ih =>
    obtain ⟨hb, hbytes⟩ := List.forall_mem_cons.mp h
    rw [mask_cons, maskByte_of_not_isBrace hb, ih _ hbytes]

/-- Where a brace is no bracket, the letter does what the brace does. -/
theorem move_letter {b : UInt8} (hb : IsBrace b) (hr : (s.role b).isBracket = false) :
    s.move 0x78 = s.move b := by
  rw [role] at hr
  simp only [move] at hr ⊢
  cases hs : s.region with
  | code =>
    rw [hs] at hr
    obtain rfl | rfl := hb <;>
      simp [moveInCode, Move.single, Role.isBracket, Byte.openBrace, Byte.closeBrace, Byte.slash,
        Byte.star, Byte.singleQuote, Byte.doubleQuote, Byte.backtick] at hr
  | lineComment => obtain rfl | rfl := hb <;> rfl
  | blockComment =>
    obtain rfl | rfl := hb <;> simp [moveInBlockComment, Byte.openBrace, Byte.closeBrace, Byte.slash]
  | quoted q => obtain rfl | rfl := hb <;> cases q <;> rfl
  | template depth =>
    rw [hs] at hr
    cases depth with
    | zero => grind [moveInTemplateText, Move.pair, Role.isBracket, IsBrace]
    | succ depth => grind [moveInPlaceholder, Move.single, Role.isBracket, IsBrace]

theorem move_maskByte (s : Lexer) (b : UInt8) : s.move (maskByte (s.role b) b) = s.move b := by
  rw [maskByte]
  split
  case isTrue h => exact move_letter h.1 h.2
  case isFalse => rfl

/-- The letter is forgotten at once, as the brace is: neither begins a pair or escapes anything. -/
theorem agrees_step_maskByte (s : Lexer) (b : UInt8) :
    Agrees (s.step b) (s.step (maskByte (s.role b) b)) := by
  constructor
  · rw [region_step, region_step, move_maskByte]
  · simp only [step, move_maskByte]
    split
    case isTrue => rfl
    case isFalse =>
      rw [maskByte]
      split
      case isTrue h =>
        simp only [memory, escapes]
        obtain rfl | rfl := h.1 <;>
          simp [Byte.openBrace, Byte.closeBrace, Byte.slash, Byte.star, Byte.dollar, Byte.backslash]
      case isFalse => rfl

namespace Agrees

theorem role_maskByte (h : Agrees s t) (b : UInt8) : t.role (maskByte (s.role b) b) = s.role b := by
  rw [← h.role_eq, role, move_maskByte, role]

/-- Agreement outlives a byte read on one side and masked on the other. -/
theorem step_maskByte (h : Agrees s t) (b : UInt8) :
    Agrees (s.step b) (t.step (maskByte (s.role b) b)) := by
  have hs := agrees_step_maskByte s b
  have ht := h.step (maskByte (s.role b) b)
  exact ⟨hs.region.trans ht.region, hs.memory.trans ht.memory⟩

theorem after_mask (h : Agrees s t) (bytes : List UInt8) :
    Agrees (s.after bytes) (t.after (s.mask bytes)) := by
  induction bytes generalizing s t with
  | nil => exact h
  | cons b bytes ih => exact ih (h.step_maskByte b)

theorem readings_mask (h : Agrees s t) (bytes : List UInt8) :
    t.readings (s.mask bytes) = s.readings bytes := by
  induction bytes generalizing s t with
  | nil => rfl
  | cons b bytes ih =>
    have hstep := h.step_maskByte b
    rw [mask_cons, readings_cons, readings_cons, h.role_maskByte, ← hstep.region, ih hstep]

theorem labels_mask (h : Agrees s t) (bytes : List UInt8) (offset : Nat) :
    t.labels (s.mask bytes) offset = s.labels bytes offset := by
  induction bytes generalizing s t offset with
  | nil => rfl
  | cons b bytes ih =>
    have hstep := h.step_maskByte b
    have hlabel : t.label (maskByte (s.role b) b) offset = s.label b offset := by
      rw [label, label, h.role_maskByte, ← hstep.region, ← h.region]
    rw [mask_cons, labels_cons, labels_cons, hlabel, ih hstep]

end Agrees

end Lexer

namespace Text

theorem not_isBrace_of_le {b : UInt8} (h : 0x80 ≤ b.toNat) : ¬ IsBrace b := by
  rintro (rfl | rfl) <;> exact absurd h (by decide)

theorem exists_mask_char (s : Lexer) (c : Char) :
    ∃ c', String.utf8EncodeChar c' = s.mask (String.utf8EncodeChar c) := by
  obtain ⟨b, hb⟩ | hhigh := utf8EncodeChar_cases c
  · rw [hb, Lexer.mask_cons, Lexer.mask_nil, maskByte]
    split
    · exact ⟨'x', rfl⟩
    · exact ⟨c, hb⟩
  · exact ⟨c, (s.mask_eq_self fun b hb => not_isBrace_of_le (hhigh b hb)).symm⟩

/-- Masking changes characters into characters, so what is left is a text. -/
theorem exists_mask (s : Lexer) (cs : List Char) :
    ∃ cs' : List Char, cs'.flatMap String.utf8EncodeChar =
      s.mask (cs.flatMap String.utf8EncodeChar) := by
  induction cs generalizing s with
  | nil => exact ⟨[], rfl⟩
  | cons c cs ih =>
    obtain ⟨c', hc⟩ := exists_mask_char s c
    obtain ⟨cs', hcs⟩ := ih (s.after (String.utf8EncodeChar c))
    refine ⟨c' :: cs', ?_⟩
    rw [List.flatMap_cons, List.flatMap_cons, Lexer.mask_append, hc, hcs]

end Text

namespace Buffer

variable {bytes : List UInt8}

theorem classify_mask (h : bytes.length ≤ maxOffset) :
    (ofBytes (Lexer.start.mask bytes)).classify 0 = (ofBytes bytes).classify 0 := by
  have hm : (Lexer.start.mask bytes).length ≤ maxOffset := by rwa [Lexer.length_mask]
  rw [classify_ofBytes h (Nat.zero_le _), classify_ofBytes hm (Nat.zero_le _), List.drop_zero,
    List.drop_zero, (Lexer.Agrees.refl .start).labels_mask]

/-- A scan reports nothing of a text but the roles of its bytes and the region at its end. -/
theorem balance_congr {u v : List UInt8} (hu : u.length ≤ maxOffset) (hv : v.length ≤ maxOffset)
    (hr : Lexer.start.roles u = Lexer.start.roles v)
    (he : (Lexer.start.after u).region = (Lexer.start.after v).region) :
    (ofBytes u).balance = (ofBytes v).balance := by
  rw [balance_ofBytes hu, balance_ofBytes hv, Tally.readAll_zipIdx, Tally.readAll_zipIdx]
  simp only [Tally.start, hr, Balance.ofTally, he, Tally.unclosed]

/-- Masking the braces of a text that are no brackets changes nothing: the masked text is a text, and
it has the roles, regions, spans and balance of the text. Each brace left in it is a bracket. -/
theorem mask_unnoticed (bytes : List UInt8) (h : bytes.length ≤ maxOffset) :
    ∃ readings labels spans report, Lexer.start.trace bytes = .ok readings ∧
      (ofBytes bytes).classify 0 = .ok labels ∧ (ofBytes bytes).spans = .ok spans ∧
      (ofBytes bytes).balance = .ok report ∧
      ∃ masked, masked = List.zipWith maskByte (readings.map Prod.fst) bytes ∧
        (∀ text, Text.bytes text = bytes → ∃ text', Text.bytes text' = masked) ∧
        Lexer.start.trace masked = .ok readings ∧ (ofBytes masked).classify 0 = .ok labels ∧
        (ofBytes masked).spans = .ok spans ∧ (ofBytes masked).balance = .ok report ∧
        ∀ (i : Nat) (b : UInt8), masked[i]? = some b → IsBrace b →
          ∃ r : Role, (readings.map Prod.fst)[i]? = some r ∧ r.isBracket = true := by
  have hm : (Lexer.start.mask bytes).length ≤ maxOffset := by rwa [Lexer.length_mask]
  have hr : Lexer.start.readings (Lexer.start.mask bytes) = Lexer.start.readings bytes :=
    (Lexer.Agrees.refl .start).readings_mask bytes
  have hend := ((Lexer.Agrees.refl .start).after_mask bytes).region
  have hc : (ofBytes bytes).classify 0 = .ok (Lexer.start.labels (bytes.drop 0) 0) :=
    classify_ofBytes h (Nat.zero_le _)
  have hcm := (classify_mask h).trans hc
  have hbm : (ofBytes (Lexer.start.mask bytes)).balance = (ofBytes bytes).balance :=
    balance_congr hm h (congrArg (List.map Prod.fst) hr) hend.symm
  obtain ⟨spans, hs⟩ := exists_spans h
  have hsm : (ofBytes (Lexer.start.mask bytes)).spans = .ok spans := by
    rw [Buffer.spans, hcm, ← hc, ← Buffer.spans, hs]
  refine ⟨_, _, spans, _, Lexer.start_trace h, hc, hs, balance_ofBytes h, Lexer.start.mask bytes,
    rfl, ?_, ?_, hcm, hsm, hbm.trans (balance_ofBytes h), ?_⟩
  · rintro text rfl
    obtain ⟨cs, hcs⟩ := Text.exists_mask .start text.toList
    exact ⟨String.ofList cs, by rw [Text.bytes, String.toList_ofList, hcs, Text.bytes]⟩
  · rw [Lexer.start_trace hm, hr]
  · intro i b hb hbrace
    change (List.zipWith maskByte (Lexer.start.roles bytes) bytes)[i]? = some b at hb
    rw [List.getElem?_zipWith_eq_some] at hb
    obtain ⟨r, b', hrole, -, rfl⟩ := hb
    exact ⟨r, hrole, isBracket_of_isBrace_maskByte hbrace⟩

/-- The escaped brace of the placeholder and the quoted one are masked, the marker and its partner are
not. -/
theorem mask_of_escaped_brace :
    ∃ readings report,
      Lexer.start.trace (Text.bytes "`$\x7b\\\x7b\x7d`'\x7b'") = .ok readings ∧
      (ofBytes (Text.bytes "`$\x7b\\\x7b\x7d`'\x7b'")).balance = .ok report ∧
      Lexer.start.trace (Text.bytes "`$\x7b\\x\x7d`'x'") = .ok readings ∧
      (ofBytes (Text.bytes "`$\x7b\\x\x7d`'x'")).balance = .ok report := by
  obtain ⟨readings, -, -, report, ht, -, -, hb, masked, hm, -, htm, -, -, hbm, -⟩ :=
    mask_unnoticed (Text.bytes "`$\x7b\\\x7b\x7d`'\x7b'") (by decide)
  obtain rfl : Lexer.start.readings (Text.bytes "`$\x7b\\\x7b\x7d`'\x7b'") = readings :=
    Except.ok.inj ht
  obtain rfl : Text.bytes "`$\x7b\\x\x7d`'x'" = masked := by rw [hm]; rfl
  exact ⟨_, report, ht, hb, htm, hbm⟩

end Buffer

end BraceBalance
