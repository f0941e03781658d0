import Mathlib.Data.List.Induction
import BraceBalance.Proofs.Placeholders
import BraceBalance.Proofs.Safety

/-!
# Anchors

Three readers go over a text, each with a lexer of its own: the check of an anchor, the classification
and the scan. They never contradict each other. A body starts at just the bytes that the classification
labels as braces that count, and these are the bytes that the scan puts on the braces still open. A
brace refused as an anchor is in text of a region where none counts, or escaped in a placeholder.
-/

namespace BraceBalance

/-- The text ends in an odd number of backslashes, so that the last one escapes what comes next. -/
def EscapesNext (bytes : List UInt8) : Prop :=
  (bytes.reverse.takeWhile (· == Byte.backslash)).length % 2 = 1

theorem not_escapesNext_nil : ¬ EscapesNext [] := nofun

/-- A backslash escapes the next byte unless it is itself escaped. -/
theorem escapesNext_concat {bytes : List UInt8} {b : UInt8} :
    EscapesNext (bytes ++ [b]) ↔ b = Byte.backslash ∧ ¬ EscapesNext bytes := by
  rw [EscapesNext, EscapesNext, List.reverse_concat, List.takeWhile_cons]
  by_cases hb : b = Byte.backslash
  · simp only [hb, beq_self_eq_true, if_true, List.length_cons, true_and]
    omega
  · simp [hb]

namespace Lexer

/-- In every region, and across all of them, the lexer tells by the parity of the backslashes. -/
theorem escapes_after_iff (bytes : List UInt8) :
    (start.after bytes).escapes = true ↔ EscapesNext bytes := by
  induction bytes using List.reverseRecOn with
  | nil => exact iff_of_false (by decide) not_escapesNext_nil
  | append_singleton bytes b ih =>
    rw [after_append, after_cons, after_nil, escapes_step_iff, escapesNext_concat, ← ih,
      Bool.not_eq_true]

end Lexer

theorem Tally.pending_count_eq_cons_iff {t : Tally} {o : Nat} {r : Role} :
    (t.count o r).pending = o :: t.pending ↔ r = .openBrace := by
  cases r with
  | openBrace => exact iff_of_true rfl rfl
  | closeBrace =>
    refine iff_of_false (fun h => ?_) nofun
    have hl := congrArg List.length h
    simp only [count, closed, List.length_tail, List.length_cons] at hl
    omega
  | code | inert | placeholderOpen | placeholderClose => simp [count]

namespace Buffer

variable {bytes : List UInt8} {anchor : Nat} {region : Region}

/-- The scan of a text puts the byte at `o` on the braces still open. -/
def Pushes (bytes : List UInt8) (o : Nat) : Prop :=
  ∃ before after, Counted bytes o before ∧ Counted bytes (o + 1) after ∧
    after.pending = o :: before.pending

theorem pushes_iff (h : bytes.length ≤ maxOffset) {o : Nat} :
    Pushes bytes o ↔ (Lexer.start.roles bytes)[o]? = some .openBrace := by
  have hpending : ∀ ho : o < bytes.length,
      (Tally.upTo bytes (o + 1)).pending = o :: (Tally.upTo bytes o).pending ↔
        (Lexer.start.roles bytes)[o]? = some .openBrace := by
    intro ho
    rw [Tally.upTo_succ ho, Lexer.getElem?_roles_eq_some_iff (List.getElem?_eq_getElem ho),
      ← Tally.lexer_upTo]
    exact Tally.pending_count_eq_cons_iff
  constructor
  · rintro ⟨before, after, hbefore, hafter, hpush⟩
    rw [hbefore.eq_upTo h, hafter.eq_upTo h] at hpush
    exact (hpending hafter.le_length).mp hpush
  · intro hr
    have ho := Lexer.lt_length_of_getElem?_roles hr
    exact ⟨_, _, counted_upTo h (Nat.le_of_lt ho), counted_upTo h ho, (hpending ho).mpr hr⟩

/-- Why a brace does not count in a region: no brace does there, or the region is a placeholder and a
backslash escapes the brace that is not itself escaped. -/
inductive Discounted (bytes : List UInt8) : Nat → Region → Prop where
  | inert {anchor : Nat} {region : Region} : region.isInert = true → Discounted bytes anchor region
  | escaped {m depth : Nat} : bytes[m]? = some Byte.backslash → ¬ EscapesNext (bytes.take m) →
      Discounted bytes (m + 1) (.template (depth + 1))

theorem discounted_of_role_ne (ha : bytes[anchor]? = some Byte.openBrace)
    (hr : (Lexer.start.roles bytes)[anchor]? ≠ some .openBrace) :
    Discounted bytes anchor (Lexer.start.after (bytes.take anchor)).region := by
  rw [ne_eq, Lexer.getElem?_roles_eq_some_iff ha, Lexer.role_eq_openBrace_iff] at hr
  cases hregion : (Lexer.start.after (bytes.take anchor)).region with
  | code => exact absurd ⟨rfl, .inl hregion⟩ hr
  | lineComment | blockComment | quoted q => exact .inert rfl
  | template depth =>
    cases depth with
    | zero => exact .inert rfl
    | succ depth =>
      have hescapes : (Lexer.start.after (bytes.take anchor)).escapes = true :=
        eq_true_of_ne_false fun hfree => hr ⟨rfl, .inr ⟨depth, hregion, hfree⟩⟩
      rw [Lexer.escapes_after_iff] at hescapes
      cases anchor with
      | zero => exact absurd hescapes not_escapesNext_nil
      | succ m =>
        have hm : m < bytes.length := by
          have := (List.getElem?_eq_some_iff.mp ha).1
          omega
        rw [List.take_succ_eq_append_getElem hm, escapesNext_concat] at hescapes
        exact .escaped (List.getElem?_eq_some_iff.mpr ⟨hm, hescapes.1⟩) hescapes.2

/-- A brace that does not count. The scan reaches it in the region it is labelled with, and that is
not code. -/
structure Uncounted (bytes : List UInt8) (labels : List Label) (anchor : Nat) (region : Region) :
    Prop where
  openBrace : bytes[anchor]? = some Byte.openBrace
  reached : ∃ t, Counted bytes anchor t ∧ t.lexer.region = region
  labelled : ∃ l ∈ labels, l.offset = anchor ∧ l.region = region ∧ l.role ≠ .openBrace
  ne_code : region ≠ .code
  discounted : Discounted bytes anchor region

theorem uncounted_iff (h : bytes.length ≤ maxOffset) :
    Uncounted bytes (Lexer.start.labels bytes 0) anchor region ↔
      bytes[anchor]? = some Byte.openBrace ∧
        (Lexer.start.roles bytes)[anchor]? ≠ some .openBrace ∧
        region = (Lexer.start.after (bytes.take anchor)).region := by
  constructor
  · rintro ⟨ha, ⟨t, ht, rfl⟩, ⟨l, hl, rfl, -, hrole⟩, -, -⟩
    refine ⟨ha, fun hr => ?_, by rw [ht.eq_upTo h, Tally.lexer_upTo]⟩
    obtain ⟨b, hb, hlabel⟩ := Lexer.mem_labels_iff.mp hl
    exact hrole (hlabel ▸ (Lexer.getElem?_roles_eq_some_iff hb).mp hr)
  · rintro ⟨ha, hr, rfl⟩
    have hcode := Lexer.region_ne_code_of_role_ne ha hr
    refine ⟨ha, ?_, ?_, hcode, discounted_of_role_ne ha hr⟩
    · have hle : anchor ≤ bytes.length := Nat.le_of_lt (List.getElem?_eq_some_iff.mp ha).1
      exact ⟨_, counted_upTo h hle, by rw [Tally.lexer_upTo]⟩
    · refine ⟨_, Lexer.mem_labels_iff.mpr ⟨_, ha, rfl⟩, rfl, Lexer.region_label_of_ne hcode _ _, ?_⟩
      exact fun hrole => hr ((Lexer.getElem?_roles_eq_some_iff ha).mpr hrole)

/-- The answer at an anchor, by what the other two readers make of the byte there. A body starts just
where the classification labels a brace that counts, and that is just where the scan puts one on the
braces still open. -/
structure Agreed (bytes : List UInt8) (labels : List Label) (anchor : Nat)
    (answer : Except AnchorError Body) : Prop where
  outOfBounds_iff : ∀ o length, answer = .error (.outOfBounds o length) ↔
    bytes.length ≤ anchor ∧ o = anchor ∧ length = bytes.length
  notOpenBrace_iff : ∀ o found, answer = .error (.notOpenBrace o found) ↔
    o = anchor ∧ ∃ b, bytes[anchor]? = some b ∧ b ≠ Byte.openBrace ∧ found = Char.ofNat b.toNat
  ok_iff_labelled : (∃ body, answer = .ok body) ↔
    ∃ l ∈ labels, l.offset = anchor ∧ l.role = .openBrace
  ok_iff_pushed : (∃ body, answer = .ok body) ↔ Pushes bytes anchor
  notStructural_iff : ∀ o region, answer = .error (.notStructural o region) ↔
    o = anchor ∧ Uncounted bytes labels anchor region

/-- The three readers of a text agree on every anchor. -/
theorem readers_agree (bytes : List UInt8) (h : bytes.length ≤ maxOffset) (anchor : Nat) :
    ∃ labels answer, (ofBytes bytes).classify 0 = .ok labels ∧
      (ofBytes bytes).bodyAt anchor = .ok answer ∧ Agreed bytes labels anchor answer := by
  have hlabels : (ofBytes bytes).classify 0 = .ok (Lexer.start.labels bytes 0) :=
    classify_ofBytes h (Nat.zero_le _)
  obtain ⟨answer, hanswer⟩ := (holds_ofBytes h).exists_bodyAt h anchor
  have heq : ∀ a, answer = a ↔ (ofBytes bytes).bodyAt anchor = .ok a := by
    intro a
    rw [hanswer, Except.ok.injEq]
  have hok : (∃ body, answer = .ok body) ↔ (Lexer.start.roles bytes)[anchor]? = some .openBrace := by
    simp only [heq, bodyAt_eq_ok_iff h, exists_and_left, exists_eq, and_true]
  refine ⟨_, answer, hlabels, hanswer, ?_, ?_, ?_, ?_, ?_⟩
  · intro o length
    rw [heq, bodyAt_eq_outOfBounds_iff h]
  · intro o found
    rw [heq, bodyAt_eq_notOpenBrace_iff h]
  · rw [hok, Lexer.exists_label_iff]
  · rw [hok, pushes_iff h]
  · intro o region
    rw [heq, bodyAt_eq_notStructural_iff h, uncounted_iff h]

/-- In a placeholder one backslash takes a brace out of the count, and two of them leave it in. -/
theorem readers_agree_on_escaped :
    ∃ bytes labels, bytes = [Byte.backtick, Byte.dollar, Byte.openBrace, Byte.backslash,
        Byte.openBrace, Byte.backslash, Byte.backslash, Byte.openBrace] ∧
      (ofBytes bytes).classify 0 = .ok labels ∧ Uncounted bytes labels 4 (.template 1) ∧
        Pushes bytes 7 := by
  have hlength : [Byte.backtick, Byte.dollar, Byte.openBrace, Byte.backslash, Byte.openBrace,
    Byte.backslash, Byte.backslash, Byte.openBrace].length ≤ maxOffset := by decide
  obtain ⟨labels, refused, hlabels, hrefused, hescaped⟩ := readers_agree _ hlength 4
  obtain ⟨_, accepted, -, haccepted, hfree⟩ := readers_agree _ hlength 7
  obtain rfl : .error (.notStructural 4 (.template 1)) = refused := Except.ok.inj hrefused
  obtain rfl : .ok ⟨7, none⟩ = accepted := Except.ok.inj haccepted
  exact ⟨_, labels, rfl, hlabels, ((hescaped.notStructural_iff _ _).mp rfl).2,
    hfree.ok_iff_pushed.mp ⟨_, rfl⟩⟩

end Buffer

end BraceBalance
