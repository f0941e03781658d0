import Mathlib.Data.List.Infix
import BraceBalance.Proofs.Partners

/-!
# Bodies in placeholders

The scan of a body reads it as code, also where the anchor stands in a placeholder. Plain text, without
quotes, backticks, backslashes and comment markers, has the same roles in both readings, as long as a
brace that the placeholder opened before the text stays open: only the brace that ends the placeholder
is read as a delimiter. So a body of plain text closes at the partner that the anchor has in the whole
text.
-/

namespace BraceBalance

/-- Text without a byte or a pair of bytes that code and a placeholder read differently. -/
structure Plain (bytes : List UInt8) : Prop where
  not_singleQuote : Byte.singleQuote ∉ bytes
  not_doubleQuote : Byte.doubleQuote ∉ bytes
  not_backtick : Byte.backtick ∉ bytes
  not_backslash : Byte.backslash ∉ bytes
  not_lineMarker : ¬ [Byte.slash, Byte.slash] <:+: bytes
  not_blockMarker : ¬ [Byte.slash, Byte.star] <:+: bytes

theorem Plain.of_infix {u v : List UInt8} (h : Plain v) (huv : u <:+: v) : Plain u where
  not_singleQuote hm := h.not_singleQuote (huv.subset hm)
  not_doubleQuote hm := h.not_doubleQuote (huv.subset hm)
  not_backtick hm := h.not_backtick (huv.subset hm)
  not_backslash hm := h.not_backslash (huv.subset hm)
  not_lineMarker hm := h.not_lineMarker (hm.trans huv)
  not_blockMarker hm := h.not_blockMarker (hm.trans huv)

/-- A brace before plain text begins no marker. -/
theorem Plain.openBrace_cons {u : List UInt8} (h : Plain u) : Plain (Byte.openBrace :: u) where
  not_singleQuote := List.not_mem_cons_of_ne_of_not_mem (by decide) h.not_singleQuote
  not_doubleQuote := List.not_mem_cons_of_ne_of_not_mem (by decide) h.not_doubleQuote
  not_backtick := List.not_mem_cons_of_ne_of_not_mem (by decide) h.not_backtick
  not_backslash := List.not_mem_cons_of_ne_of_not_mem (by decide) h.not_backslash
  not_lineMarker := by
    rw [List.infix_cons_iff, List.cons_prefix_cons]
    exact not_or.mpr ⟨fun hp => absurd hp.1 (by decide), h.not_lineMarker⟩
  not_blockMarker := by
    rw [List.infix_cons_iff, List.cons_prefix_cons]
    exact not_or.mpr ⟨fun hp => absurd hp.1 (by decide), h.not_blockMarker⟩

namespace Lexer

/-- A lexer in a placeholder with `depth + 1` open braces and one in code, which have read the same
byte last. -/
structure Mirrors (s t : Lexer) (depth : Nat) : Prop where
  inside : s.region = .template (depth + 1)
  code : t.region = .code
  last_eq : s.last = t.last

variable {s t : Lexer} {b : UInt8} {depth : Nat}

theorem escapes_of_plain {rest : List UInt8} (h : Plain (s.last.toList ++ rest)) :
    s.escapes = false := by
  have hlast : s.last ≠ some Byte.backslash := by
    intro hs
    refine h.not_backslash (List.mem_append_left _ ?_)
    rw [hs]
    exact List.mem_singleton_self _
  simp [escapes, hlast]

/-- A byte of plain text in code. -/
theorem move_of_plain (ht : t.region = .code) (h : Plain (t.last.toList ++ [b])) :
    t.move b =
      if b = Byte.openBrace then .single .openBrace .code
      else if b = Byte.closeBrace then .single .closeBrace .code
      else .single .code .code := by
  have hb : b ∈ t.last.toList ++ [b] := List.mem_append_right _ (List.mem_singleton_self b)
  have hsingle : b ≠ Byte.singleQuote := fun he => h.not_singleQuote (he ▸ hb)
  have hdouble : b ≠ Byte.doubleQuote := fun he => h.not_doubleQuote (he ▸ hb)
  have hbacktick : b ≠ Byte.backtick := fun he => h.not_backtick (he ▸ hb)
  have hline : ¬ (b = Byte.slash ∧ t.last = some Byte.slash) := by
    rintro ⟨rfl, hl⟩
    rw [hl] at h
    exact h.not_lineMarker (List.infix_refl _)
  have hblock : ¬ (b = Byte.star ∧ t.last = some Byte.slash) := by
    rintro ⟨rfl, hl⟩
    rw [hl] at h
    exact h.not_blockMarker (List.infix_refl _)
  simp only [move, ht, moveInCode, hsingle, hdouble, hbacktick, hline, hblock, false_and, if_false]

/-- A byte of plain text in a placeholder that is not about to end. -/
theorem move_of_plain_inside (hs : s.region = .template (depth + 2))
    (h : Plain (s.last.toList ++ [b])) :
    s.move b =
      if b = Byte.openBrace then .single .openBrace (.template (depth + 3))
      else if b = Byte.closeBrace then .single .closeBrace (.template (depth + 1))
      else .single .code (.template (depth + 2)) := by
  have hb : b ∈ s.last.toList ++ [b] := List.mem_append_right _ (List.mem_singleton_self b)
  have hbacktick : b ≠ Byte.backtick := fun he => h.not_backtick (he ▸ hb)
  simp only [move, hs, moveInPlaceholder, escapes_of_plain h, hbacktick, Bool.false_eq_true,
    if_false, Nat.succ_ne_zero]

/-- After an anchor in a placeholder both readings begin side by side. -/
theorem mirrors_anchor (hr : s.region = .template (depth + 1))
    (ho : s.role Byte.openBrace = .openBrace) :
    Mirrors (s.step Byte.openBrace) (start.step Byte.openBrace) (depth + 1) := by
  have he : s.escapes = false := by
    obtain ⟨-, hcode | ⟨_, -, he⟩⟩ := role_eq_openBrace_iff.mp ho
    · rw [hr] at hcode
      cases hcode
    · exact he
  have hs : s.move Byte.openBrace = .single .openBrace (.template (depth + 2)) := by
    simp [move, hr, moveInPlaceholder, he, Byte.openBrace, Byte.backtick]
  have ht : start.move Byte.openBrace = .single .openBrace .code := move_openBrace rfl
  rw [step_of_single hs, step_of_single ht]
  exact ⟨rfl, rfl, rfl⟩

/-- Both readings give a plain byte the same role, and count alike. -/
theorem Mirrors.step (h : Mirrors s t (depth + 1)) (hp : Plain (t.last.toList ++ [b])) :
    t.role b = s.role b ∧ (t.step b).last = some b ∧
      ∃ next : Nat, (next : Int) = depth + 1 + (s.role b).weight ∧
        Mirrors (s.step b) (t.step b) next := by
  have ht := move_of_plain h.code hp
  have hs := move_of_plain_inside h.inside (h.last_eq ▸ hp)
  by_cases hopen : b = Byte.openBrace
  · rw [if_pos hopen] at ht hs
    rw [role, role, step_of_single ht, step_of_single hs, ht, hs]
    exact ⟨rfl, rfl, depth + 2, rfl, rfl, rfl, rfl⟩
  rw [if_neg hopen] at ht hs
  by_cases hclose : b = Byte.closeBrace
  · rw [if_pos hclose] at ht hs
    rw [role, role, step_of_single ht, step_of_single hs, ht, hs]
    refine ⟨rfl, rfl, depth, ?_, rfl, rfl, rfl⟩
    rw [Move.single, Role.weight]
    omega
  · rw [if_neg hclose] at ht hs
    rw [role, role, step_of_single ht, step_of_single hs, ht, hs]
    exact ⟨rfl, rfl, depth + 1, rfl, rfl, rfl, rfl⟩

/-- Where a brace that encloses plain text closes does not depend on the reading. There are `depth`
braces of the text open in it, and at least one more in the placeholder. -/
theorem Mirrors.closingIndex_eq {base : Nat} {rest : List UInt8}
    (h : Mirrors s t (depth + base + 1))
    (hp : Plain (t.last.toList ++
      rest.take ((closingIndex depth (s.roles rest)).getD rest.length))) :
    closingIndex depth (t.roles rest) = closingIndex depth (s.roles rest) := by
  induction rest generalizing s t depth with
  | nil => rfl
  | cons b rest ih =>
    rw [roles_cons] at hp ⊢
    rw [roles_cons]
    obtain ⟨hrole, rfl⟩ | ⟨depth', hdepth, hindex⟩ := closingIndex_cons depth (s.role b)
    · -- The enclosing brace closes here: a closing brace is one in code too, whatever stands before it.
      obtain ⟨rfl, -⟩ := role_eq_closeBrace_iff.mp hrole
      rw [hrole, role_closeBrace h.code]
      rfl
    · rw [hindex, List.length_cons, Option.getD_map, List.take_succ_cons, List.append_cons] at hp
      obtain ⟨hrole, hlast, next, hnext, hmirrors⟩ :=
        h.step (hp.of_infix (List.prefix_append _ _).isInfix)
      obtain rfl : next = depth' + base + 1 := by omega
      rw [hrole, hindex, hindex, ih hmirrors]
      rw [hlast]
      rw [List.append_assoc] at hp
      exact hp.of_infix (List.suffix_append _ _).isInfix

/-- In a placeholder, too, a brace before plain text closes where it does in the text after it. -/
theorem closingIndex_of_plain {bytes : List UInt8} {a : Nat}
    (ha : (start.roles bytes)[a]? = some .openBrace)
    (hr : (start.after (bytes.take a)).region = .template (depth + 1))
    (hp : Plain ((bytes.drop (a + 1)).take
      ((closingIndex 0 ((start.roles bytes).drop (a + 1))).getD (bytes.drop (a + 1)).length))) :
    closingIndex 0 (start.roles (bytes.drop (a + 1))) =
      closingIndex 0 ((start.roles bytes).drop (a + 1)) := by
  have hb := getElem?_of_role_openBrace ha
  have hmirrors : Mirrors _ _ (0 + depth + 1) :=
    (Nat.zero_add depth).symm ▸ mirrors_anchor hr ((getElem?_roles_eq_some_iff hb).mp ha)
  rw [← roles_drop, after_take_of_getElem? _ hb] at hp ⊢
  rw [← (agrees_start_of_openBrace (s := start) rfl).roles_eq]
  exact hmirrors.closingIndex_eq hp.openBrace_cons

end Lexer

namespace Buffer

/-- A body in a placeholder whose text is plain up to the partner of its anchor, or up to the end of
the text if there is none, closes at that partner. The scan that starts anew at the anchor and the scan
of the whole text agree. -/
theorem closing_eq_partner_of_plain (bytes : List UInt8) (h : bytes.length ≤ maxOffset) (a : Nat)
    (body : Body) (hbody : (ofBytes bytes).bodyAt a = .ok (.ok body)) (s : Lexer)
    (hs : Lexer.start.run (bytes.take a) = .ok s) (depth : Nat)
    (hr : s.region = .template (depth + 1)) :
    ∃ readings report partner, Lexer.start.trace bytes = .ok readings ∧
      (ofBytes bytes).balance = .ok report ∧
      (∀ e, partner = some e ↔ Paired (readings.map Prod.fst) a e) ∧
      (∀ e, partner = some e ↔ PopsAt bytes a e) ∧
      (partner = none ↔ a ∈ report.unclosed) ∧
      (Plain ((bytes.take (partner.getD bytes.length)).drop (a + 1)) → body.closing = partner) := by
  obtain ⟨hrole, rfl⟩ := (bodyAt_eq_ok_iff h).mp hbody
  obtain rfl : Lexer.start.after (bytes.take a) = s := by
    rw [Lexer.start_run (by rw [List.length_take]; omega)] at hs
    exact Except.ok.inj hs
  have hpartner : ∀ e, ((closingIndex 0 ((Lexer.start.roles bytes).drop (a + 1))).map
      (a + 1 + ·)) = some e ↔ Paired (Lexer.start.roles bytes) a e :=
    fun e => (paired_iff_closingIndex hrole).symm
  refine ⟨_, _, _, Lexer.start_trace h, balance_ofBytes h, hpartner,
    fun e => (hpartner e).trans (popsAt_iff_paired h).symm, ?_, fun hp => ?_⟩
  · rw [Balance.mem_unclosed_ofTally (Tally.tracks_readAll_length bytes),
      Option.eq_none_iff_forall_ne_some]
    simp only [ne_eq, hpartner, hrole, true_and]
  · refine congrArg (Option.map (a + 1 + ·)) (Lexer.closingIndex_of_plain hrole hr ?_)
    rw [List.drop_take] at hp
    cases hi : closingIndex 0 ((Lexer.start.roles bytes).drop (a + 1)) with
    | none => rwa [hi, Option.map_none, Option.getD_none, ← List.length_drop] at hp
    | some i => rwa [hi, Option.map_some, Option.getD_some, Nat.add_sub_cancel_left] at hp

/-- A slash, a brace and a star are no marker, and the backtick comes too late to matter. -/
theorem closing_eq_partner_of_lone_slash :
    ∃ body, (ofBytes [Byte.backtick, Byte.dollar, Byte.openBrace, Byte.openBrace, Byte.openBrace,
        Byte.slash, Byte.closeBrace, Byte.star, Byte.closeBrace, Byte.closeBrace,
        Byte.backtick]).bodyAt 3 = .ok (.ok body) ∧
      Plain [Byte.openBrace, Byte.slash, Byte.closeBrace, Byte.star] ∧ body.closing = some 8 ∧
      PopsAt [Byte.backtick, Byte.dollar, Byte.openBrace, Byte.openBrace, Byte.openBrace, Byte.slash,
        Byte.closeBrace, Byte.star, Byte.closeBrace, Byte.closeBrace, Byte.backtick] 3 8 := by
  obtain ⟨readings, report, partner, ht, -, hpaired, hpops, -, hclosing⟩ :=
    closing_eq_partner_of_plain [Byte.backtick, Byte.dollar, Byte.openBrace, Byte.openBrace,
      Byte.openBrace, Byte.slash, Byte.closeBrace, Byte.star, Byte.closeBrace, Byte.closeBrace,
      Byte.backtick] (by decide) 3 ⟨3, some 8⟩ rfl ⟨.template 1, none, false⟩ rfl 0 rfl
  obtain rfl : _ = readings := Except.ok.inj ((Lexer.start_trace (by decide)).symm.trans ht)
  obtain rfl : some 8 = partner := ((hpaired 8).mpr (by unfold Paired; decide)).symm
  have hplain : Plain [Byte.openBrace, Byte.slash, Byte.closeBrace, Byte.star] :=
    ⟨by decide, by decide, by decide, by decide, by decide, by decide⟩
  exact ⟨_, rfl, hplain, hclosing hplain, (hpops 8).mp rfl⟩

end Buffer

end BraceBalance
