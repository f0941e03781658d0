import BraceBalance.Proofs.Bodies
import BraceBalance.Proofs.Matching

/-!
# Partners

The partner of an opening brace is found from that brace on, whatever stands before it: it is the
first closing brace that leaves open none of the braces opened in between. For a brace in code this
is where the scan of a body from that brace ends, so the body closes at the brace where the scan of
the whole text takes its anchor off the pending braces.
-/

namespace BraceBalance

section

variable {roles : List Role}

theorem getElem?_and_drop_succ_of_drop {n : Nat} {r : Role} {rest : List Role}
    (h : roles.drop n = r :: rest) : roles[n]? = some r ∧ roles.drop (n + 1) = rest := by
  constructor
  · have hr : (roles.drop n)[0]? = some r := by rw [h, List.getElem?_cons_zero]
    rwa [List.getElem?_drop] at hr
  · rw [← List.tail_drop, h, List.tail_cons]

/-- One byte closes the innermost of the braces above `outer`, or leaves `outer` at the bottom. -/
theorem freeBefore_succ_of_append {inner outer : List Nat} {n : Nat} {r : Role}
    (hn : roles[n]? = some r) (hf : freeBefore roles n = inner ++ outer) :
    r = .closeBrace ∧ inner = [] ∨
      ∃ inner', freeBefore roles (n + 1) = inner' ++ outer ∧
        ∀ rest, closingIndex inner.length (r :: rest) =
          (closingIndex inner'.length rest).map (· + 1) := by
  cases r with
  | openBrace =>
    refine .inr ⟨n :: inner, ?_, fun _ => rfl⟩
    rw [freeBefore_succ_open hn, hf, List.cons_append]
  | closeBrace =>
    cases inner with
    | nil => exact .inl ⟨rfl, rfl⟩
    | cons o inner =>
      refine .inr ⟨inner, ?_, fun _ => rfl⟩
      rw [freeBefore_succ_close hn, hf, List.cons_append, List.tail_cons]
  | code | inert | placeholderOpen | placeholderClose =>
    refine .inr ⟨inner, ?_, fun _ => rfl⟩
    rw [freeBefore_succ_of_ne (by simp [hn]) (by simp [hn]), hf]

/-- Where all braces opened since some point are closed, those free at that point are free again. -/
theorem freeBefore_of_closingIndex_eq_some {rest : List Role} {inner outer : List Nat} {n i : Nat}
    (hr : roles.drop n = rest) (hf : freeBefore roles n = inner ++ outer)
    (hi : closingIndex inner.length rest = some i) : freeBefore roles (n + i) = outer := by
  induction rest generalizing n inner i with
  | nil => simp [closingIndex] at hi
  | cons r rest ih =>
    obtain ⟨hn, hrest⟩ := getElem?_and_drop_succ_of_drop hr
    obtain ⟨rfl, rfl⟩ | ⟨inner', hf', hc⟩ := freeBefore_succ_of_append hn hf
    · obtain rfl : 0 = i := Option.some.inj hi
      exact hf
    · rw [hc] at hi
      obtain ⟨j, hj, rfl⟩ := Option.map_eq_some_iff.mp hi
      rw [Nat.add_comm j, ← Nat.add_assoc]
      exact ih hrest hf' hj

/-- As long as they are not closed, the braces free at some point stay free. -/
theorem freeBefore_of_closingIndex_eq_none {rest : List Role} {inner outer : List Nat} {n : Nat}
    (hr : roles.drop n = rest) (hf : freeBefore roles n = inner ++ outer)
    (hi : closingIndex inner.length rest = none) :
    ∃ inner', freeBefore roles (n + rest.length) = inner' ++ outer := by
  induction rest generalizing n inner with
  | nil => exact ⟨inner, hf⟩
  | cons r rest ih =>
    obtain ⟨hn, hrest⟩ := getElem?_and_drop_succ_of_drop hr
    obtain ⟨rfl, rfl⟩ | ⟨inner', hf', hc⟩ := freeBefore_succ_of_append hn hf
    · cases hi
    · rw [hc] at hi
      rw [List.length_cons, Nat.add_comm rest.length, ← Nat.add_assoc]
      exact ih hrest hf' (Option.map_eq_none_iff.mp hi)

theorem paired_iff {o c : Nat} :
    Paired roles o c ↔ roles[c]? = some .closeBrace ∧ (freeBefore roles c).head? = some o := by
  rw [Paired, mem_pairsBefore]
  constructor
  · rintro ⟨-, h⟩
    exact h
  · rintro ⟨hr, ho⟩
    exact ⟨(List.getElem?_eq_some_iff.mp hr).1, hr, ho⟩

/-- A brace has at most one partner after it. -/
theorem Paired.le {o c d : Nat} (hc : Paired roles o c) (hd : Paired roles o d) : d ≤ c := by
  obtain ⟨hr, ho⟩ := paired_iff.mp hc
  obtain ⟨-, hd⟩ := paired_iff.mp hd
  obtain ⟨-, -, hfree⟩ := mem_freeBefore.mp (List.mem_of_head? hd)
  refine Nat.le_of_not_lt fun hlt => hfree c ?_
  exact mem_pairsBefore.mpr ⟨hlt, hr, ho⟩

theorem Paired.unique {o c d : Nat} (hc : Paired roles o c) (hd : Paired roles o d) : c = d :=
  Nat.le_antisymm (hd.le hc) (hc.le hd)

/-- A free brace stops being free just where its partner stands. -/
theorem freeBefore_eq_cons_succ_iff {o n : Nat} (hn : n < roles.length) :
    freeBefore roles n = o :: freeBefore roles (n + 1) ↔ Paired roles o n := by
  have hr : roles[n]? = some roles[n] := List.getElem?_eq_getElem hn
  rw [paired_iff, hr]
  cases hrole : roles[n] with
  | closeBrace =>
    rw [freeBefore_succ_close (hrole ▸ hr)]
    cases freeBefore roles n <;> simp
  | openBrace =>
    rw [freeBefore_succ_open (hrole ▸ hr)]
    simp only [Option.some.injEq, reduceCtorEq, false_and, iff_false]
    intro heq
    have hl := congrArg List.length heq
    simp only [List.length_cons] at hl
    omega
  | code | inert | placeholderOpen | placeholderClose =>
    rw [freeBefore_succ_of_ne (by simp [hr, hrole]) (by simp [hr, hrole])]
    simp

/-- The partner of a brace depends on the roles after that brace alone. -/
theorem paired_iff_closingIndex {o c : Nat} (ho : roles[o]? = some .openBrace) :
    Paired roles o c ↔ (closingIndex 0 (roles.drop (o + 1))).map (o + 1 + ·) = some c := by
  have hf : freeBefore roles (o + 1) = [] ++ o :: freeBefore roles o := freeBefore_succ_open ho
  have hsome : ∀ i, closingIndex 0 (roles.drop (o + 1)) = some i → Paired roles o (o + 1 + i) := by
    intro i hi
    have hfree := freeBefore_of_closingIndex_eq_some rfl hf hi
    have hrole := (closingIndex_eq_some_iff.mp hi).role
    rw [List.getElem?_drop] at hrole
    exact paired_iff.mpr ⟨hrole, by rw [hfree, List.head?_cons]⟩
  cases hi : closingIndex 0 (roles.drop (o + 1)) with
  | some i =>
    rw [Option.map_some, Option.some.injEq]
    constructor
    · exact (hsome i hi).unique
    · rintro rfl
      exact hsome i hi
  | none =>
    obtain ⟨inner, hfree⟩ := freeBefore_of_closingIndex_eq_none rfl hf hi
    have hlt : o < roles.length := (List.getElem?_eq_some_iff.mp ho).1
    have hmem : o ∈ freeBefore roles roles.length := by
      rw [List.length_drop, show o + 1 + (roles.length - (o + 1)) = roles.length by omega] at hfree
      simp [hfree]
    have hp : ¬ Paired roles o c := (mem_freeBefore.mp hmem).2.2 c
    simp [hp]

end

namespace Buffer

variable {bytes : List UInt8} {a : Nat}

/-- The scan of the whole text takes `o` off its pending braces at the byte `c`. -/
def PopsAt (bytes : List UInt8) (o c : Nat) : Prop :=
  ∃ before after, Tally.scan .endOfText false .start (bytes.take c).zipIdx = .ok (none, before) ∧
    Tally.scan .endOfText false .start (bytes.take (c + 1)).zipIdx = .ok (none, after) ∧
    before.pending = o :: after.pending

/-- The pending braces after any prefix of the text are its free ones. -/
theorem exists_scan_take (h : bytes.length ≤ maxOffset) (n : Nat) :
    ∃ t, Tally.scan .endOfText false .start (bytes.take n).zipIdx = .ok (none, t) ∧
      t.pending = freeBefore (Lexer.start.roles bytes) (min n bytes.length) := by
  have hroom : Tally.start.HasRoom (bytes.take n).zipIdx.length := by
    refine Tally.hasRoom_start ?_
    rw [List.length_zipIdx, List.length_take]
    omega
  have ht := Tally.tracks_readAll bytes (min n bytes.length) (Nat.min_le_right _ _)
  rw [List.take_eq_take_min] at hroom ⊢
  exact ⟨_, Tally.scan_endOfText false _ hroom, ht.pending⟩

theorem popsAt_iff_paired (h : bytes.length ≤ maxOffset) {o c : Nat} :
    PopsAt bytes o c ↔ Paired (Lexer.start.roles bytes) o c := by
  obtain ⟨before, hb, hbp⟩ := exists_scan_take h c
  obtain ⟨after, ha, hap⟩ := exists_scan_take h (c + 1)
  have hpops : PopsAt bytes o c ↔ before.pending = o :: after.pending := by
    constructor
    · rintro ⟨before', after', hb', ha', hp⟩
      rw [hb] at hb'
      rw [ha] at ha'
      cases hb'
      cases ha'
      exact hp
    · intro hp
      exact ⟨before, after, hb, ha, hp⟩
  rw [hpops, hbp, hap]
  rcases Nat.lt_or_ge c bytes.length with hc | hc
  · rw [Nat.min_eq_left (by omega), Nat.min_eq_left (by omega)]
    exact freeBefore_eq_cons_succ_iff (by rwa [Lexer.length_roles])
  · rw [Nat.min_eq_right hc, Nat.min_eq_right (by omega)]
    have hp : ¬ Paired (Lexer.start.roles bytes) o c := by
      intro hp
      have hlt := Lexer.lt_length_of_getElem?_roles (paired_iff.mp hp).1
      omega
    simp [hp]

/-- Read from a brace in code on, a text has the roles that it has as part of the whole. -/
theorem roles_drop_succ_of_code (ha : bytes[a]? = some Byte.openBrace)
    (hcode : (Lexer.start.after (bytes.take a)).region = .code) :
    (Lexer.start.roles bytes).drop (a + 1) = Lexer.start.roles (bytes.drop (a + 1)) := by
  rw [← Lexer.roles_drop, Lexer.after_take_of_getElem? _ ha]
  exact (Lexer.agrees_start_of_openBrace hcode).roles_eq _

/-- The body that starts at a brace in code closes at the partner of this brace in the whole text,
where the scan of the whole text pops it, and is unterminated just if that scan reports it. -/
theorem closing_iff_partner (bytes : List UInt8) (h : bytes.length ≤ maxOffset) (a : Nat)
    (ha : bytes[a]? = some Byte.openBrace) (s : Lexer)
    (hs : Lexer.start.run (bytes.take a) = .ok s) (hcode : s.region = .code) :
    ∃ readings report body, Lexer.start.trace bytes = .ok readings ∧
      (ofBytes bytes).balance = .ok report ∧ (ofBytes bytes).bodyAt a = .ok (.ok body) ∧
      body.anchor = a ∧
      (∀ c, body.closing = some c ↔ Paired (readings.map Prod.fst) a c) ∧
      (∀ c, body.closing = some c ↔ PopsAt bytes a c) ∧
      (body.closing = none ↔ a ∈ report.unclosed) := by
  have hafter : Lexer.start.after (bytes.take a) = s := by
    rw [Lexer.start_run (by rw [List.length_take]; omega)] at hs
    exact Except.ok.inj hs
  subst hafter
  have hrole : (Lexer.start.roles bytes)[a]? = some .openBrace := by
    rw [Lexer.getElem?_roles, ha, Option.map_some, Lexer.role_openBrace hcode]
  have hclosing : ∀ c, ((closingIndex 0 (Lexer.start.roles (bytes.drop (a + 1)))).map
      (a + 1 + ·)) = some c ↔ Paired (Lexer.start.roles bytes) a c := by
    intro c
    rw [paired_iff_closingIndex hrole, roles_drop_succ_of_code ha hcode]
  refine ⟨_, _, _, Lexer.start_trace h, balance_ofBytes h, bodyAt_of_role h hrole, rfl, hclosing,
    fun c => (hclosing c).trans (popsAt_iff_paired h).symm, ?_⟩
  rw [Balance.mem_unclosed_ofTally (Tally.tracks_readAll_length bytes),
    Option.eq_none_iff_forall_ne_some]
  simp only [ne_eq, hclosing, hrole, true_and]

/-- A stray brace and half a comment marker before the anchor change nothing. -/
theorem popsAt_after_stray :
    (ofBytes [Byte.closeBrace, Byte.slash, Byte.openBrace, Byte.closeBrace,
      Byte.openBrace]).bodyAt 2 = .ok (.ok ⟨2, some 3⟩) ∧
    PopsAt [Byte.closeBrace, Byte.slash, Byte.openBrace, Byte.closeBrace, Byte.openBrace] 2 3 := by
  obtain ⟨_, _, body, _, _, hb, _, _, hpops, _⟩ := closing_iff_partner
    [Byte.closeBrace, Byte.slash, Byte.openBrace, Byte.closeBrace, Byte.openBrace] (by decide) 2 rfl
    ⟨.code, some Byte.slash, false⟩ rfl rfl
  obtain rfl : (⟨2, some 3⟩ : Body) = body := Except.ok.inj (Except.ok.inj hb)
  exact ⟨hb, (hpops 3).mp rfl⟩

end Buffer

end BraceBalance
