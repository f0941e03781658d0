import BraceBalance.Proofs.Bodies
import BraceBalance.Proofs.Placeholders
import BraceBalance.Proofs.Spans

/-!
# Insertion

A chunk of text that is balanced and ends in code can stand anywhere in code, as long as no two-byte
sequence and no escape arises where it meets the text around it. Its braces are opened on top of those
that are open and closed again, so a scan leaves it with the tally it came with, and reads what follows
as if the chunk were not there. All that changes are the offsets behind.
-/

namespace BraceBalance

namespace Lexer

variable {bytes : List UInt8}

/-- A slash that is remembered in code has the role of code. -/
theorem role_of_last_after_eq_slash (hr : (start.after bytes).region = .code)
    (hl : (start.after bytes).last = some Byte.slash) :
    (start.roles bytes).getLast? = some .code := by
  obtain ⟨init, rfl, hstep⟩ := exists_step_of_last_after hl
  rw [hstep] at hr hl
  have hs := (region_of_last_eq_slash hr hl).1
  rw [roles_append, roles_cons, roles_nil, List.getLast?_concat, role, move_slash hs]
  rw [region_step, move_slash hs] at hr
  split at hr
  · cases hr
  · rw [if_neg ‹_›]
    rfl

end Lexer

/-- A text that a scan leaves in code, with no byte at its end that could go together with the next. -/
structure EndsInCode (bytes : List UInt8) : Prop where
  run : ∃ s, Lexer.start.run bytes = .ok s ∧ s.region = .code
  ne_slash : bytes.getLast? ≠ some Byte.slash
  ne_backslash : bytes.getLast? ≠ some Byte.backslash

/-- A text that is balanced and ends in code, with no byte at its end that could go together with the
next. The slash that ends a comment could not. -/
structure SelfContained (bytes : List UInt8) : Prop where
  balanced : ∃ report, (Buffer.ofBytes bytes).balance = .ok report ∧ report.isBalanced = true ∧
    report.endRegion = .code
  ne_backslash : bytes.getLast? ≠ some Byte.backslash
  ne_slash : ∃ readings, Lexer.start.trace bytes = .ok readings ∧
    ¬ (bytes.getLast? = some Byte.slash ∧ (readings.map Prod.fst).getLast? = some .code)

section

variable {bytes : List UInt8}

theorem EndsInCode.agrees (h : EndsInCode bytes) (hl : bytes.length ≤ maxOffset) :
    Lexer.Agrees (Lexer.start.after bytes) .start := by
  obtain ⟨s, hrun, hcode⟩ := h.run
  obtain rfl : Lexer.start.after bytes = s := Except.ok.inj ((Lexer.start_run hl).symm.trans hrun)
  apply Lexer.agrees_start_of_code hcode
  · intro hlast
    exact h.ne_slash (Lexer.getLast?_of_last_after hlast)
  · intro hlast
    exact h.ne_backslash (Lexer.getLast?_of_last_after hlast)

theorem SelfContained.balanced_roles (h : SelfContained bytes) (hl : bytes.length ≤ maxOffset) :
    Balanced (Lexer.start.roles bytes) :=
  ((Buffer.exists_balanced_report_iff hl).mp h.balanced).1

theorem SelfContained.agrees (h : SelfContained bytes) (hl : bytes.length ≤ maxOffset) :
    Lexer.Agrees (Lexer.start.after bytes) .start := by
  have hcode := ((Buffer.exists_balanced_report_iff hl).mp h.balanced).2
  obtain ⟨readings, htrace, hslash⟩ := h.ne_slash
  obtain rfl : Lexer.start.readings bytes = readings :=
    Except.ok.inj ((Lexer.start_trace hl).symm.trans htrace)
  apply Lexer.agrees_start_of_code hcode
  · intro hlast
    exact hslash ⟨Lexer.getLast?_of_last_after hlast,
      Lexer.role_of_last_after_eq_slash hcode hlast⟩
  · intro hlast
    exact h.ne_backslash (Lexer.getLast?_of_last_after hlast)

end

namespace Tally

variable {base : Tally}

/-- `base` with the braces of `inner` open on top. -/
def stacked (base : Tally) (inner : List Nat) : Tally :=
  { base with depth := base.depth + inner.length, pending := inner ++ base.pending }

@[simp] theorem stacked_nil (base : Tally) : base.stacked [] = base := by
  simp [stacked]

theorem opened_stacked (base : Tally) (inner : List Nat) (o : Nat) :
    (base.stacked inner).opened o = base.stacked (o :: inner) := by
  simp [stacked, opened, Int.add_assoc]

/-- Closing one of the braces on top does not reach below. -/
theorem closed_stacked (hb : base.depth < 0 → base.firstNegative ≠ none) (o : Nat)
    (inner : List Nat) (c : Nat) : (base.stacked (o :: inner)).closed c = base.stacked inner := by
  have habove : base.depth < (base.stacked (o :: inner)).depth := by
    simp only [stacked, List.length_cons]
    omega
  have hf : ((base.stacked (o :: inner)).closed c).firstNegative = base.firstNegative :=
    firstNegative_closed_above hb habove rfl c
  have hd : base.depth + (inner.length + 1 : Nat) - 1 = base.depth + inner.length := by omega
  calc (base.stacked (o :: inner)).closed c
      = ⟨base.lexer, base.depth + (inner.length + 1 : Nat) - 1,
          ((base.stacked (o :: inner)).closed c).firstNegative, inner ++ base.pending⟩ := rfl
    _ = base.stacked inner := by rw [hf, hd]; rfl

/-- What closes no more than it opens does not reach below either. -/
theorem exists_countAll_stacked (hb : base.depth < 0 → base.firstNegative ≠ none)
    (roles : List Role) (inner : List Nat) (offset : Nat)
    (hr : ∀ j, 0 ≤ inner.length + surplus (roles.take j)) :
    ∃ inner' : List Nat, (inner'.length : Int) = inner.length + surplus roles ∧
      (base.stacked inner).countAll (roles.zipIdx offset) = base.stacked inner' := by
  induction roles generalizing inner offset with
  | nil => exact ⟨inner, (Int.add_zero _).symm, rfl⟩
  | cons r roles ih =>
    have hnext : ∃ next : List Nat, (next.length : Int) = inner.length + r.weight ∧
        (base.stacked inner).count offset r = base.stacked next := by
      cases r with
      | openBrace => exact ⟨offset :: inner, rfl, opened_stacked base inner offset⟩
      | closeBrace =>
        cases inner with
        | nil => exact absurd (hr 1) (by simp [Role.weight])
        | cons o inner =>
          refine ⟨inner, ?_, closed_stacked hb o inner offset⟩
          simp only [Role.weight, List.length_cons]
          omega
      | code | inert | placeholderOpen | placeholderClose =>
        exact ⟨inner, (Int.add_zero _).symm, rfl⟩
    obtain ⟨next, hlength, hcount⟩ := hnext
    have hrest : ∀ j, 0 ≤ next.length + surplus (roles.take j) := by
      intro j
      have hj := hr (j + 1)
      rw [List.take_succ_cons, surplus_cons] at hj
      omega
    obtain ⟨inner', hlength', hcount'⟩ := ih next (offset + 1) hrest
    refine ⟨inner', ?_, ?_⟩
    · rw [hlength', hlength, surplus_cons, Int.add_assoc]
    · rw [List.zipIdx_cons, countAll_cons, hcount, hcount']

/-- Braces that are balanced leave no trace. -/
theorem countAll_of_balanced (hb : base.depth < 0 → base.firstNegative ≠ none)
    {roles : List Role} (hr : Balanced roles) (offset : Nat) :
    base.countAll (roles.zipIdx offset) = base := by
  obtain ⟨inner, hlength, hcount⟩ := exists_countAll_stacked hb roles [] offset (by
    intro j
    simpa using hr.nonneg j)
  rw [hr.surplus_eq, List.length_nil] at hlength
  obtain rfl : inner = [] := List.length_eq_zero_iff.mp (by omega)
  rwa [stacked_nil] at hcount

/-- The tally with its offsets moved. -/
def mapOffsets (f : Nat → Nat) (t : Tally) : Tally :=
  { t with firstNegative := t.firstNegative.map f, pending := t.pending.map f }

theorem count_mapOffsets (f : Nat → Nat) (t : Tally) (offset : Nat) (r : Role) :
    (t.mapOffsets f).count (f offset) r = (t.count offset r).mapOffsets f := by
  cases r with
  | closeBrace =>
    by_cases hneg : t.depth - 1 < 0 <;>
      simp [count, closed, mapOffsets, hneg, List.map_tail]
  | openBrace | code | inert | placeholderOpen | placeholderClose => rfl

/-- Where the offsets of bytes are moved by one distance, so are those counted. -/
theorem countAll_mapOffsets {f : Nat → Nat} {k : Nat} (t : Tally) (roles : List Role) (offset : Nat)
    (hf : ∀ o, offset ≤ o → f o = o + k) :
    (t.mapOffsets f).countAll (roles.zipIdx (offset + k)) =
      (t.countAll (roles.zipIdx offset)).mapOffsets f := by
  induction roles generalizing t offset with
  | nil => rfl
  | cons r roles ih =>
    rw [List.zipIdx_cons, List.zipIdx_cons, countAll_cons, countAll_cons,
      ← hf offset (Nat.le_refl _), count_mapOffsets, hf offset (Nat.le_refl _), Nat.add_right_comm]
    exact ih _ _ fun o ho => hf o (by omega)

end Tally

/-- Where an offset is after `k` bytes have been inserted at `n`. -/
def raise (n k o : Nat) : Nat := if o < n then o else o + k

/-- The report with the offsets from `n` on raised by `k`. -/
def Balance.raised (n k : Nat) (r : Balance) : Balance :=
  { r with firstNegative := r.firstNegative.map (raise n k), unclosed := r.unclosed.map (raise n k) }

section

variable {bytes : List UInt8} {n : Nat} {t : Tally}

theorem raise_of_le {k o : Nat} (h : n ≤ o) : raise n k o = o + k := if_neg (Nat.not_lt.mpr h)

theorem raise_of_lt {k o : Nat} (h : o < n) : raise n k o = o := if_pos h

/-- No offset of a text is behind its end. -/
theorem Tally.Tracks.mapOffsets_raise {roles : List Role} (h : t.Tracks roles n) (k : Nat) :
    t.mapOffsets (raise n k) = t := by
  have hf : t.firstNegative.map (raise n k) = t.firstNegative := by
    rw [h.firstNegative]
    cases hs : straysBefore roles n with
    | nil => rfl
    | cons c strays =>
      have hc : c ∈ straysBefore roles n := by simp [hs]
      rw [straysBefore, List.mem_filter, List.mem_range] at hc
      rw [List.head?_cons, Option.map_some, raise_of_lt hc.1]
  have hp : t.pending.map (raise n k) = t.pending := by
    rw [h.pending]
    calc (freeBefore roles n).map (raise n k)
        = (freeBefore roles n).map id :=
          List.map_congr_left fun o ho => raise_of_lt (mem_freeBefore.mp ho).1
      _ = freeBefore roles n := List.map_id _
  rw [Tally.mapOffsets, hf, hp]

end

namespace Lexer

variable {p w : List UInt8}

/-- Behind a text after which the lexer goes on as at its start, a text is read as alone. -/
theorem agrees_after_append (hp : Agrees (start.after p) start) (bytes : List UInt8) :
    Agrees (start.after (p ++ bytes)) (start.after bytes) := by
  rw [after_append]
  exact hp.after bytes

theorem readings_append_of_agrees (hp : Agrees (start.after p) start) (bytes : List UInt8) :
    start.readings (p ++ bytes) = start.readings p ++ start.readings bytes := by
  rw [readings_append, hp.readings_eq]

theorem roles_append_of_agrees (hp : Agrees (start.after p) start) (bytes : List UInt8) :
    start.roles (p ++ bytes) = start.roles p ++ start.roles bytes := by
  rw [roles_append, hp.roles_eq]

end Lexer

namespace Tally

/-- The scan of a text in two parts that are read alike, each on its own. -/
theorem countAll_roles_append {p s : List UInt8} (hp : Lexer.Agrees (Lexer.start.after p) .start)
    (t : Tally) (offset : Nat) :
    t.countAll ((Lexer.start.roles (p ++ s)).zipIdx offset) =
      (t.countAll ((Lexer.start.roles p).zipIdx offset)).countAll
        ((Lexer.start.roles s).zipIdx (offset + p.length)) := by
  rw [Lexer.roles_append_of_agrees hp, List.zipIdx_append, countAll_append, Lexer.length_roles]

/-- A chunk whose braces are balanced raises the offsets counted behind it, and does no more. -/
theorem countAll_insert {p w : List UInt8} (hp : Lexer.Agrees (Lexer.start.after p) .start)
    (hw : Lexer.Agrees (Lexer.start.after w) .start) (hb : Balanced (Lexer.start.roles w))
    (s : List UInt8) :
    start.countAll (Lexer.start.roles (p ++ (w ++ s))).zipIdx =
      (start.countAll (Lexer.start.roles (p ++ s)).zipIdx).mapOffsets
        (raise p.length w.length) := by
  have ht := tracks_countAll (Lexer.start.roles p) (Lexer.start.roles p).length (Nat.le_refl _)
  rw [List.take_length, Lexer.length_roles] at ht
  have hbehind := countAll_mapOffsets (f := raise p.length w.length) (k := w.length)
    (start.countAll (Lexer.start.roles p).zipIdx) (Lexer.start.roles s) p.length
    fun o ho => raise_of_le ho
  rw [ht.mapOffsets_raise] at hbehind
  rw [countAll_roles_append hp, countAll_roles_append hp, countAll_roles_append hw,
    countAll_of_balanced ht.firstNegative_ne_none hb, Nat.zero_add]
  exact hbehind

end Tally

namespace Buffer

/-- A self-contained chunk can be inserted anywhere in code: its bytes are read as alone, the others
as without it, and the report of the scan is the same with the offsets behind it raised. -/
theorem insert_selfContained (p w s : List UInt8)
    (h : p.length + w.length + s.length ≤ maxOffset) (hp : EndsInCode p) (hw : SelfContained w) :
    ∃ plain chunk report, Lexer.start.trace (p ++ s) = .ok plain ∧
      Lexer.start.trace w = .ok chunk ∧
      Lexer.start.trace (p ++ w ++ s) =
        .ok (plain.take p.length ++ chunk ++ plain.drop p.length) ∧
      (ofBytes (p ++ s)).balance = .ok report ∧
      (ofBytes (p ++ w ++ s)).balance = .ok (report.raised p.length w.length) := by
  have hps : (p ++ s).length ≤ maxOffset := by
    rw [List.length_append]
    omega
  have hpws : (p ++ (w ++ s)).length ≤ maxOffset := by
    rw [List.length_append, List.length_append]
    omega
  have hpa := hp.agrees (by omega)
  have hwa := hw.agrees (by omega)
  rw [List.append_assoc]
  refine ⟨_, _, _, Lexer.start_trace hps, Lexer.start_trace (by omega), ?_,
    balance_eq_ofTally_countAll hps, ?_⟩
  · rw [Lexer.start_trace hpws, Lexer.readings_append_of_agrees hpa,
      Lexer.readings_append_of_agrees hpa, Lexer.readings_append_of_agrees hwa,
      List.take_left' (Lexer.length_readings _ _), List.drop_left' (Lexer.length_readings _ _),
      List.append_assoc]
  · have hregion : (Lexer.start.after (p ++ (w ++ s))).region =
        (Lexer.start.after (p ++ s)).region := by
      rw [(Lexer.agrees_after_append hpa _).region, (Lexer.agrees_after_append hwa _).region,
        (Lexer.agrees_after_append hpa _).region]
    rw [balance_eq_ofTally_countAll hpws,
      Tally.countAll_insert hpa hwa (hw.balanced_roles (by omega))]
    simp only [Balance.ofTally, Balance.raised, Tally.mapOffsets, Tally.unclosed, hregion,
      List.map_reverse]

/-- Below the depth of zero a chunk ends with a comment, and its placeholder opens a brace on top. -/
theorem insert_below_zero :
    (ofText "\x7d\x7d\x7d\x7b\x7b`$\x7b\x7b\x7d\x7d`/*\x7d*/\x7d\x7b'\x7d").balance =
      .ok ⟨-1, some 0, [3, 18], .quoted .single⟩ := by
  obtain ⟨plain, chunk, report, -, -, -, hreport, hinserted⟩ := insert_selfContained
    (Text.bytes "\x7d\x7d\x7d\x7b\x7b") (Text.bytes "`$\x7b\x7b\x7d\x7d`/*\x7d*/")
    (Text.bytes "\x7d\x7b'\x7d") (by decide)
    ⟨⟨_, rfl, rfl⟩, by decide, by decide⟩
    ⟨⟨_, rfl, rfl, rfl⟩, by decide, _, rfl, by decide⟩
  obtain rfl : ⟨-1, some 0, [3, 6], .quoted .single⟩ = report := Except.ok.inj hreport
  exact hinserted

end Buffer

end BraceBalance
