import Mathlib.Tactic.SplitIfs
import BraceBalance.Body
import BraceBalance.Proofs.Counting
import BraceBalance.Proofs.Memory

/-!
# Bodies

The scan of a body starts anew at its anchor and stops at the first brace that brings the depth back
to zero. That brace is known from the body alone: what stands between the anchor and the closing
brace is, as a text of its own, balanced and ends in code, and this holds of no other brace.
-/

namespace BraceBalance

namespace Lexer

variable {s : Lexer} {bytes : List UInt8}

theorem getElem?_of_role_openBrace {n : Nat} (h : (s.roles bytes)[n]? = some .openBrace) :
    bytes[n]? = some Byte.openBrace := by
  rw [getElem?_roles] at h
  obtain ⟨b, hb, hr⟩ := Option.map_eq_some_iff.mp h
  rw [hb, (role_eq_openBrace_iff.mp hr).1]

theorem getElem?_of_role_closeBrace {n : Nat} (h : (s.roles bytes)[n]? = some .closeBrace) :
    bytes[n]? = some Byte.closeBrace := by
  rw [getElem?_roles] at h
  obtain ⟨b, hb, hr⟩ := Option.map_eq_some_iff.mp h
  rw [hb, (role_eq_closeBrace_iff.mp hr).1]

/-- A brace that does not count is not in code. -/
theorem region_ne_code_of_role_ne {n : Nat} (hb : bytes[n]? = some Byte.openBrace)
    (hr : (s.roles bytes)[n]? ≠ some .openBrace) : (s.after (bytes.take n)).region ≠ .code :=
  fun hcode => hr ((getElem?_roles_eq_some_iff hb).mpr (role_openBrace hcode))

/-- Every brace inside a placeholder counts, except the marker's: as long as no prefix of a text
closes more than it opens, the placeholder is no deeper than the braces left open, and one. -/
theorem placeholderDepth_after_le (bytes : List UInt8) (k : Nat)
    (hs : s.region.placeholderDepth ≤ k + 1)
    (hp : ∀ j, 0 ≤ k + surplus ((s.roles bytes).take j)) :
    ((s.after bytes).region.placeholderDepth : Int) ≤ k + surplus (s.roles bytes) + 1 := by
  induction bytes generalizing s k with
  | nil =>
    simp only [after_nil, roles_nil, surplus_nil]
    omega
  | cons b bytes ih =>
    have hw : 0 ≤ k + (s.role b).weight := by simpa using hp 1
    obtain ⟨k', hk⟩ := Int.eq_ofNat_of_zero_le hw
    have hstep := placeholderDepth_step s b
    have hs' : (s.step b).region.placeholderDepth ≤ k' + 1 := by omega
    have hp' : ∀ j, 0 ≤ k' + surplus (((s.step b).roles bytes).take j) := by
      intro j
      have hj := hp (j + 1)
      simp only [roles_cons, List.take_succ_cons, surplus_cons] at hj
      omega
    have hd := ih k' hs' hp'
    rw [after_cons, roles_cons, surplus_cons]
    omega

/-- After a balanced text the lexer is at most in the first level of a placeholder. -/
theorem placeholderDepth_after_start_le (h : Balanced (start.roles bytes)) :
    (start.after bytes).region.placeholderDepth ≤ 1 := by
  have hd := placeholderDepth_after_le bytes 0 (s := start) (by decide) (by simpa using h.nonneg)
  have hz := h.surplus_eq
  omega

/-- A brace after a balanced text closes an enclosing one just if the text ends in code. -/
theorem role_after_eq_closeBrace_iff (h : Balanced (start.roles bytes)) (b : UInt8) :
    (start.after bytes).role b = .closeBrace ↔
      b = Byte.closeBrace ∧ (start.after bytes).region = .code := by
  constructor
  · intro hr
    have hd := placeholderDepth_after_start_le h
    obtain ⟨hb, hcode | ⟨depth, hdeep, -⟩⟩ := role_eq_closeBrace_iff.mp hr
    · exact ⟨hb, hcode⟩
    · rw [hdeep, Region.placeholderDepth] at hd
      omega
  · rintro ⟨rfl, hcode⟩
    exact role_closeBrace hcode

/-- The brace that closes an enclosing one, in terms of the text before it. -/
theorem closesAt_roles_iff (bytes : List UInt8) (n : Nat) :
    ClosesAt 0 (start.roles bytes) n ↔
      bytes[n]? = some Byte.closeBrace ∧ Balanced (start.roles (bytes.take n)) ∧
        (start.after (bytes.take n)).region = .code := by
  rw [closesAt_zero_iff_balanced, ← roles_take, getElem?_roles]
  constructor
  · rintro ⟨hr, hb⟩
    obtain ⟨b, hn, hr⟩ := Option.map_eq_some_iff.mp hr
    obtain ⟨rfl, hcode⟩ := (role_after_eq_closeBrace_iff hb b).mp hr
    exact ⟨hn, hb, hcode⟩
  · rintro ⟨hn, hb, hcode⟩
    exact ⟨by rw [hn, Option.map_some, role_closeBrace hcode], hb⟩

end Lexer

namespace Buffer

variable {bytes : List UInt8} {anchor : Nat}

/-- What the scan of a whole text reports, in terms of the roles of its bytes. -/
theorem exists_balanced_report_iff (h : bytes.length ≤ maxOffset) :
    (∃ report, (ofBytes bytes).balance = .ok report ∧ report.isBalanced = true ∧
        report.endRegion = .code) ↔
      Balanced (Lexer.start.roles bytes) ∧ (Lexer.start.after bytes).region = .code := by
  have hf : (Tally.start.countAll (Lexer.start.roles bytes).zipIdx).firstNegative = none ↔
      ∀ j, 0 ≤ surplus ((Lexer.start.roles bytes).take j) := by
    rw [Tally.firstNegative_countAll_eq_none_iff (by decide) rfl]
    simp [Tally.start]
  rw [balance_eq_ofTally_countAll h]
  simp only [Except.ok.injEq, exists_eq_left', Balance.ofTally, Balance.isBalanced,
    Bool.and_eq_true, beq_iff_eq, Option.isNone_iff_eq_none, Tally.depth_countAll_start, hf,
    and_congr_left_iff]
  intro _
  constructor
  · rintro ⟨hs, hn⟩
    exact ⟨hs, hn⟩
  · rintro ⟨hs, hn⟩
    exact ⟨hs, hn⟩

/-- The answer of the anchor check, which never faults on a text of admissible length. -/
theorem checkAnchor_ofBytes (h : bytes.length ≤ maxOffset) :
    (ofBytes bytes).checkAnchor anchor = .ok
      (match bytes[anchor]? with
      | none => .error (.outOfBounds anchor bytes.length)
      | some found =>
        if found = Byte.openBrace then
          if (Lexer.start.after (bytes.take anchor)).role found = .openBrace then .ok ()
          else .error (.notStructural anchor (Lexer.start.after (bytes.take anchor)).region)
        else .error (.notOpenBrace anchor (Char.ofNat found.toNat))) := by
  rw [checkAnchor, text_ofBytes bytes h, length_ofBytes bytes h]
  cases hb : bytes[anchor]? with
  | none => rfl
  | some found =>
    have ha : (bytes.take anchor).length < bytes.length := by
      have := (List.getElem?_eq_some_iff.mp hb).1
      rw [List.length_take]
      omega
    have hr : Lexer.start.run (bytes.take anchor) = .ok (Lexer.start.after (bytes.take anchor)) :=
      Lexer.start_run (by omega)
    have hd := Lexer.placeholderDepth_after_le_length .start (bytes.take anchor)
    have hs : (Lexer.start.after (bytes.take anchor)).feed found = .ok
        ((Lexer.start.after (bytes.take anchor)).role found,
          (Lexer.start.after (bytes.take anchor)).step found) :=
      Lexer.feed_eq_ok found (by
        simp only [Lexer.start, Region.placeholderDepth] at hd ⊢
        omega)
    simp only [hr, hs, bind, Except.bind, pure, Except.pure]
    split <;> rfl

/-- The anchor check succeeds just at the opening braces that count. -/
theorem checkAnchor_eq_ok_iff (h : bytes.length ≤ maxOffset) :
    (ofBytes bytes).checkAnchor anchor = .ok (.ok ()) ↔
      (Lexer.start.roles bytes)[anchor]? = some .openBrace := by
  rw [checkAnchor_ofBytes h, Lexer.getElem?_roles]
  cases bytes[anchor]? with
  | none => simp
  | some found =>
    by_cases ho : (Lexer.start.after (bytes.take anchor)).role found = .openBrace
    · have hf : found = Byte.openBrace := (Lexer.role_eq_openBrace_iff.mp ho).1
      simp [hf, hf ▸ ho]
    · by_cases hf : found = Byte.openBrace <;> simp [hf, ho]

/-- A scan from an opening brace counts that brace first, and then reads the rest of the text as
one that starts there. -/
theorem scan_anchor (h : bytes.length ≤ maxOffset) (hb : bytes[anchor]? = some Byte.openBrace) :
    ∃ last, (ofBytes bytes).scan anchor .balanced .start =
      .ok ((closingIndex 0 (Lexer.start.roles (bytes.drop (anchor + 1)))).map (anchor + 1 + ·),
        last) := by
  obtain ⟨ha, hget⟩ := List.getElem?_eq_some_iff.mp hb
  have hroom : Tally.start.HasRoom ((bytes.drop (anchor + 1)).length + 1) :=
    Tally.hasRoom_start (by rw [List.length_drop]; omega)
  have hrole : Tally.start.lexer.role Byte.openBrace = .openBrace := rfl
  have hfeed : Tally.start.feed Byte.openBrace anchor =
      .ok (.openBrace, Tally.start.read Byte.openBrace anchor) := Tally.feed_eq_ok hroom _ _
  have hroles : (Tally.start.read Byte.openBrace anchor).lexer.roles (bytes.drop (anchor + 1)) =
      Lexer.start.roles (bytes.drop (anchor + 1)) := by
    rw [Tally.lexer_read]
    exact (Lexer.agrees_start_of_openBrace (s := .start) rfl).roles_eq _
  obtain ⟨last, hs⟩ := Tally.scan_balanced 0 (t := Tally.start.read Byte.openBrace anchor) rfl
    (bytes.drop (anchor + 1)) (anchor + 1) (hroom.read _ _)
  refine ⟨last, ?_⟩
  rw [scan_ofBytes h (Nat.le_of_lt ha), List.drop_eq_getElem_cons ha, hget, List.zipIdx_cons,
    Tally.scan, hfeed, ← hroles]
  exact hs

theorem bodyAt_of_role (h : bytes.length ≤ maxOffset)
    (hr : (Lexer.start.roles bytes)[anchor]? = some .openBrace) :
    (ofBytes bytes).bodyAt anchor = .ok (.ok
      ⟨anchor, (closingIndex 0 (Lexer.start.roles (bytes.drop (anchor + 1)))).map
        (anchor + 1 + ·)⟩) := by
  have hc := (checkAnchor_eq_ok_iff h).mpr hr
  obtain ⟨last, hs⟩ := scan_anchor h (Lexer.getElem?_of_role_openBrace hr)
  simp only [bodyAt, hc, hs, bind, Except.bind, pure, Except.pure]

theorem checkAnchor_of_bodyAt {b : Buffer} {body : Body} (h : b.bodyAt anchor = .ok (.ok body)) :
    b.checkAnchor anchor = .ok (.ok ()) := by
  rw [bodyAt] at h
  cases hc : b.checkAnchor anchor with
  | error fault => simp [hc, bind, Except.bind] at h
  | ok answer =>
    cases answer with
    | error e => simp [hc, bind, Except.bind, pure, Except.pure] at h
    | ok => rfl

/-- Where no body starts, the reason is the one that the check of the anchor gives. -/
theorem bodyAt_eq_error_iff {b : Buffer} {e : AnchorError} :
    b.bodyAt anchor = .ok (.error e) ↔ b.checkAnchor anchor = .ok (.error e) := by
  rw [bodyAt]
  cases b.checkAnchor anchor with
  | error fault => simp [bind, Except.bind]
  | ok answer =>
    cases answer with
    | error e' => simp [bind, Except.bind, pure, Except.pure]
    | ok => cases b.scan anchor .balanced .start <;> simp [bind, Except.bind, pure, Except.pure]

/-- A body starts at every opening brace that counts, and nowhere else. -/
theorem bodyAt_eq_ok_iff (h : bytes.length ≤ maxOffset) {body : Body} :
    (ofBytes bytes).bodyAt anchor = .ok (.ok body) ↔
      (Lexer.start.roles bytes)[anchor]? = some .openBrace ∧
        body = ⟨anchor, (closingIndex 0 (Lexer.start.roles (bytes.drop (anchor + 1)))).map
          (anchor + 1 + ·)⟩ := by
  constructor
  · intro hbody
    have hr := (checkAnchor_eq_ok_iff h).mp (checkAnchor_of_bodyAt hbody)
    rw [bodyAt_of_role h hr] at hbody
    exact ⟨hr, (Except.ok.inj (Except.ok.inj hbody)).symm⟩
  · rintro ⟨hr, rfl⟩
    exact bodyAt_of_role h hr

theorem bodyAt_eq_outOfBounds_iff (h : bytes.length ≤ maxOffset) {o length : Nat} :
    (ofBytes bytes).bodyAt anchor = .ok (.error (.outOfBounds o length)) ↔
      bytes.length ≤ anchor ∧ o = anchor ∧ length = bytes.length := by
  rw [bodyAt_eq_error_iff, checkAnchor_ofBytes h, ← List.getElem?_eq_none_iff]
  cases bytes[anchor]? with
  | none => simp [eq_comm]
  | some found =>
    dsimp only
    split_ifs <;> simp

theorem bodyAt_eq_notOpenBrace_iff (h : bytes.length ≤ maxOffset) {o : Nat} {found : Char} :
    (ofBytes bytes).bodyAt anchor = .ok (.error (.notOpenBrace o found)) ↔
      o = anchor ∧ ∃ b, bytes[anchor]? = some b ∧ b ≠ Byte.openBrace ∧
        found = Char.ofNat b.toNat := by
  rw [bodyAt_eq_error_iff, checkAnchor_ofBytes h]
  cases bytes[anchor]? with
  | none => simp
  | some b =>
    dsimp only
    split_ifs with hb <;> simp [hb, eq_comm]

/-- A brace that does not count is refused with the region in which the text before it ends. -/
theorem bodyAt_eq_notStructural_iff (h : bytes.length ≤ maxOffset) {o : Nat} {region : Region} :
    (ofBytes bytes).bodyAt anchor = .ok (.error (.notStructural o region)) ↔
      o = anchor ∧ bytes[anchor]? = some Byte.openBrace ∧
        (Lexer.start.roles bytes)[anchor]? ≠ some .openBrace ∧
        region = (Lexer.start.after (bytes.take anchor)).region := by
  rw [bodyAt_eq_error_iff, checkAnchor_ofBytes h, Lexer.getElem?_roles]
  cases bytes[anchor]? with
  | none => simp
  | some b =>
    dsimp only
    split_ifs with hb hr
    · simp [hr]
    · subst hb
      simp [hr, eq_comm (a := o), eq_comm (a := region)]
    · simp [hb]

/-- The brace at `c` closes the body that starts at `anchor`: what stands between them is, as a text
of its own, balanced and ends in code. -/
structure ClosesBody (bytes : List UInt8) (anchor c : Nat) : Prop where
  lt : anchor < c
  lt_length : c < bytes.length
  closeBrace : bytes[c]? = some Byte.closeBrace
  balanced : ∃ report, (ofBytes ((bytes.take c).drop (anchor + 1))).balance = .ok report ∧
    report.isBalanced = true ∧ report.endRegion = .code

variable {c : Nat}

theorem closesBody_iff (h : bytes.length ≤ maxOffset) :
    ClosesBody bytes anchor c ↔
      ∃ n, anchor + 1 + n = c ∧
        ClosesAt 0 (Lexer.start.roles (bytes.drop (anchor + 1))) n := by
  have hl : ∀ n, ((bytes.drop (anchor + 1)).take n).length ≤ maxOffset := by
    intro n
    rw [List.length_take, List.length_drop]
    omega
  constructor
  · rintro ⟨hlt, -, hb, hr⟩
    obtain ⟨n, rfl⟩ := Nat.exists_eq_add_of_le (show anchor + 1 ≤ c by omega)
    rw [List.drop_take, Nat.add_sub_cancel_left, exists_balanced_report_iff (hl n)] at hr
    exact ⟨n, rfl, (Lexer.closesAt_roles_iff _ n).mpr ⟨by rwa [List.getElem?_drop], hr⟩⟩
  · rintro ⟨n, rfl, hn⟩
    obtain ⟨hb, hr⟩ := (Lexer.closesAt_roles_iff _ n).mp hn
    rw [List.getElem?_drop] at hb
    refine ⟨by omega, (List.getElem?_eq_some_iff.mp hb).1, hb, ?_⟩
    rw [List.drop_take, Nat.add_sub_cancel_left, exists_balanced_report_iff (hl n)]
    exact hr

/-- No two braces close one body. -/
theorem ClosesBody.unique (h : bytes.length ≤ maxOffset) {d : Nat}
    (hc : ClosesBody bytes anchor c) (hd : ClosesBody bytes anchor d) : c = d := by
  obtain ⟨m, rfl, hm⟩ := (closesBody_iff h).mp hc
  obtain ⟨n, rfl, hn⟩ := (closesBody_iff h).mp hd
  rw [closesAt_unique 0 hm hn]

/-- What closes a body closes it wherever the body stands, whatever comes before and after. -/
theorem ClosesBody.splice (hc : ClosesBody bytes anchor c) (before after : List UInt8) :
    ClosesBody (before ++ (bytes.take (c + 1)).drop anchor ++ after) before.length
      (before.length + (c - anchor)) := by
  obtain ⟨hlt, hlen, hb, hr⟩ := hc
  have hm : ((bytes.take (c + 1)).drop anchor).length = c - anchor + 1 := by
    rw [List.length_drop, List.length_take]
    omega
  refine ⟨by omega, ?_, ?_, ?_⟩
  · simp only [List.length_append, hm]
    omega
  · rw [List.append_assoc, List.getElem?_append_right (by omega), Nat.add_sub_cancel_left,
      List.getElem?_append_left (by omega), List.getElem?_drop,
      List.getElem?_take_of_lt (by omega), show anchor + (c - anchor) = c by omega, hb]
  · have hs : ((before ++ (bytes.take (c + 1)).drop anchor ++ after).take
        (before.length + (c - anchor))).drop (before.length + 1) =
        (bytes.take c).drop (anchor + 1) := by
      rw [List.append_assoc, List.take_length_add_append, List.drop_length_add_append,
        List.take_append_of_le_length (by omega), List.take_drop, List.drop_drop, List.take_take,
        Nat.min_eq_left (by omega), show anchor + (c - anchor) = c by omega]
    rwa [hs]

/-- The lexer that reads a body from its anchor is in code before the closing brace. -/
theorem ClosesBody.exists_run (h : bytes.length ≤ maxOffset)
    (ha : bytes[anchor]? = some Byte.openBrace) (hc : ClosesBody bytes anchor c) :
    ∃ s, Lexer.start.run ((bytes.take c).drop anchor) = .ok s ∧ s.region = .code := by
  have hl : ∀ n, ((bytes.take c).drop n).length ≤ maxOffset := by
    intro n
    rw [List.length_drop, List.length_take]
    omega
  have hcode := ((exists_balanced_report_iff (hl _)).mp hc.balanced).2
  have hlt := hc.lt
  have hlen := hc.lt_length
  have hanchor : anchor < (bytes.take c).length := by
    rw [List.length_take]
    omega
  have hget : (bytes.take c)[anchor] = Byte.openBrace := by
    rw [List.getElem_take]
    exact (List.getElem?_eq_some_iff.mp ha).2
  refine ⟨_, Lexer.start_run (hl anchor), ?_⟩
  rw [List.drop_eq_getElem_cons hanchor, hget, Lexer.after_cons,
    ((Lexer.agrees_start_of_openBrace rfl).after _).region, hcode]

theorem closing_eq_some_iff (h : bytes.length ≤ maxOffset) {body : Body}
    (hbody : (ofBytes bytes).bodyAt anchor = .ok (.ok body)) :
    body.closing = some c ↔ ClosesBody bytes anchor c := by
  obtain ⟨-, rfl⟩ := (bodyAt_eq_ok_iff h).mp hbody
  rw [closesBody_iff h, Option.map_eq_some_iff]
  simp only [closingIndex_eq_some_iff, and_comm]
  rfl

/-- The closing brace of a body is the one brace with a balanced text that ends in code between the
anchor and itself. It is the same in every text that contains the body, and the lexer that reads the
body is in no placeholder before it. -/
theorem closing_iff_closesBody (bytes : List UInt8) (h : bytes.length ≤ maxOffset) (anchor : Nat)
    (body : Body) (hbody : (ofBytes bytes).bodyAt anchor = .ok (.ok body)) :
    (∀ c, body.closing = some c ↔ ClosesBody bytes anchor c) ∧
      (∀ c d, ClosesBody bytes anchor c → ClosesBody bytes anchor d → c = d) ∧
      (body.closing = none ↔ ∀ c, ¬ ClosesBody bytes anchor c) ∧
      (∀ c, body.closing = some c → ∀ before after other,
        (before ++ (bytes.take (c + 1)).drop anchor ++ after).length ≤ maxOffset →
        (ofBytes (before ++ (bytes.take (c + 1)).drop anchor ++ after)).bodyAt before.length =
          .ok (.ok other) →
        other.closing = some (before.length + (c - anchor))) ∧
      ∀ c, body.closing = some c →
        ∃ s, Lexer.start.run ((bytes.take c).drop anchor) = .ok s ∧ s.region = .code := by
  have hiff : ∀ c, body.closing = some c ↔ ClosesBody bytes anchor c :=
    fun c => closing_eq_some_iff h hbody
  refine ⟨hiff, fun c d => ClosesBody.unique h, ?_, ?_, ?_⟩
  · rw [Option.eq_none_iff_forall_ne_some]
    exact forall_congr' fun c => not_congr (hiff c)
  · intro c hc before after other hl hother
    exact (closing_eq_some_iff hl hother).mpr (((hiff c).mp hc).splice before after)
  · intro c hc
    have ha := Lexer.getElem?_of_role_openBrace ((bodyAt_eq_ok_iff h).mp hbody).1
    exact ((hiff c).mp hc).exists_run h ha

/-- The braces inside a placeholder of the body do not close it. -/
theorem closesBody_after_placeholder :
    (ofBytes [Byte.closeBrace, Byte.slash, Byte.openBrace, Byte.backtick, Byte.dollar,
      Byte.openBrace, Byte.openBrace, Byte.closeBrace, Byte.closeBrace, Byte.backtick,
      Byte.closeBrace, Byte.closeBrace]).bodyAt 2 = .ok (.ok ⟨2, some 10⟩) ∧
    ClosesBody [Byte.closeBrace, Byte.slash, Byte.openBrace, Byte.backtick, Byte.dollar,
      Byte.openBrace, Byte.openBrace, Byte.closeBrace, Byte.closeBrace, Byte.backtick,
      Byte.closeBrace, Byte.closeBrace] 2 10 :=
  ⟨rfl, ((closing_iff_closesBody _ (by decide) 2 ⟨2, some 10⟩ rfl).1 10).mp rfl⟩

end Buffer

end BraceBalance
