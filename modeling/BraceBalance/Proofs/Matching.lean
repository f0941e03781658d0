import BraceBalance.Proofs.Counting

/-!
# Bracket matching

The pairs of a text's braces, from its roles alone: each closing brace that counts takes the nearest
opening brace before it that no earlier one took. The counters of a scan are three accounts of this
matching. The pending braces are the opening braces not yet taken, the first negative offset is the
first closing brace that found none to take, and the depth is the difference of both numbers.
-/

namespace BraceBalance

/-- Whether the byte at `o` is an opening brace that no pair takes. -/
def isFree (roles : List Role) (pairs : List (Nat × Nat)) (o : Nat) : Bool :=
  roles[o]? == some .openBrace && !(pairs.map Prod.fst).contains o

/-- The nearest opening brace before `n` that no pair takes. -/
def nearestFree (roles : List Role) (pairs : List (Nat × Nat)) (n : Nat) : Option Nat :=
  (List.range n).reverse.find? (isFree roles pairs)

/-- The pairs that the closing braces among the first `n` bytes make, latest first. -/
def pairsBefore (roles : List Role) : Nat → List (Nat × Nat)
  | 0 => []
  | n + 1 =>
    if roles[n]? = some .closeBrace then
      match nearestFree roles (pairsBefore roles n) n with
      | some o => (o, n) :: pairsBefore roles n
      | none => pairsBefore roles n
    else pairsBefore roles n

/-- The opening brace at `o` and the closing brace at `c` are partners. -/
def Paired (roles : List Role) (o c : Nat) : Prop := (o, c) ∈ pairsBefore roles roles.length

/-- The opening braces among the first `n` bytes that are still free, nearest first. -/
def freeBefore (roles : List Role) (n : Nat) : List Nat :=
  (List.range n).reverse.filter (isFree roles (pairsBefore roles n))

/-- Whether the byte at `c` is a closing brace in no pair. -/
def isStray (roles : List Role) (pairs : List (Nat × Nat)) (c : Nat) : Bool :=
  roles[c]? == some .closeBrace && !(pairs.map Prod.snd).contains c

/-- The closing braces among the first `n` bytes that found no partner, ascending. -/
def straysBefore (roles : List Role) (n : Nat) : List Nat :=
  (List.range n).filter (isStray roles (pairsBefore roles n))

variable {roles : List Role}

theorem nearestFree_eq_head? (roles : List Role) (n : Nat) :
    nearestFree roles (pairsBefore roles n) n = (freeBefore roles n).head? := by
  rw [nearestFree, freeBefore, List.head?_filter]

theorem pairsBefore_succ_of_ne {n : Nat} (h : roles[n]? ≠ some .closeBrace) :
    pairsBefore roles (n + 1) = pairsBefore roles n := by
  rw [pairsBefore, if_neg h]

theorem pairsBefore_succ {n : Nat} (h : roles[n]? = some .closeBrace) :
    pairsBefore roles (n + 1) =
      ((freeBefore roles n).head?.map (·, n)).toList ++ pairsBefore roles n := by
  rw [pairsBefore, if_pos h, nearestFree_eq_head?]
  cases (freeBefore roles n).head? <;> rfl

/-- Each pair was made at its closing brace. -/
theorem mem_pairsBefore {n o c : Nat} :
    (o, c) ∈ pairsBefore roles n ↔
      c < n ∧ roles[c]? = some .closeBrace ∧ (freeBefore roles c).head? = some o := by
  induction n with
  | zero => simp [pairsBefore]
  | succ n ih =>
    by_cases h : roles[n]? = some .closeBrace
    · rw [pairsBefore_succ h, List.mem_append, ih]
      simp only [Option.mem_toList, Option.map_eq_some_iff, Prod.mk.injEq]
      constructor
      · rintro (⟨o', ho, rfl, rfl⟩ | ⟨hc, hr, ho⟩)
        · exact ⟨by omega, h, ho⟩
        · exact ⟨by omega, hr, ho⟩
      · rintro ⟨hc, hr, ho⟩
        by_cases he : c = n
        · subst he
          exact .inl ⟨o, ho, rfl, rfl⟩
        · exact .inr ⟨by omega, hr, ho⟩
    · rw [pairsBefore_succ_of_ne h, ih]
      constructor
      · rintro ⟨hc, hr, ho⟩
        exact ⟨by omega, hr, ho⟩
      · rintro ⟨hc, hr, ho⟩
        have he : c ≠ n := by
          rintro rfl
          exact h hr
        exact ⟨by omega, hr, ho⟩

theorem isFree_iff {n o : Nat} :
    isFree roles (pairsBefore roles n) o = true ↔
      roles[o]? = some .openBrace ∧ ∀ c, (o, c) ∉ pairsBefore roles n := by
  simp [isFree]

theorem isStray_iff {n c : Nat} :
    isStray roles (pairsBefore roles n) c = true ↔
      roles[c]? = some .closeBrace ∧ ∀ o, (o, c) ∉ pairsBefore roles n := by
  simp [isStray]

theorem mem_freeBefore {n o : Nat} :
    o ∈ freeBefore roles n ↔
      o < n ∧ roles[o]? = some .openBrace ∧ ∀ c, (o, c) ∉ pairsBefore roles n := by
  rw [freeBefore, List.mem_filter, isFree_iff, List.mem_reverse, List.mem_range]

theorem freeBefore_descending (roles : List Role) (n : Nat) :
    (freeBefore roles n).Pairwise (· > ·) := by
  have hr : (List.range n).reverse.Pairwise (· > ·) := by
    rw [List.pairwise_reverse]
    exact List.pairwise_lt_range
  exact hr.filter _

theorem lt_of_mem_pairsBefore {n o c : Nat} (h : (o, c) ∈ pairsBefore roles n) : o < c := by
  obtain ⟨-, -, ho⟩ := mem_pairsBefore.mp h
  exact (mem_freeBefore.mp (List.mem_of_head? ho)).1

/-- An opening brace becomes the nearest free one. -/
theorem freeBefore_succ_open {n : Nat} (h : roles[n]? = some .openBrace) :
    freeBefore roles (n + 1) = n :: freeBefore roles n := by
  have hp : pairsBefore roles (n + 1) = pairsBefore roles n :=
    pairsBefore_succ_of_ne (by simp [h])
  have hn : isFree roles (pairsBefore roles n) n = true := by
    refine isFree_iff.mpr ⟨h, fun c hc => ?_⟩
    have := lt_of_mem_pairsBefore hc
    have := (mem_pairsBefore.mp hc).1
    omega
  rw [freeBefore, hp, List.range_succ, List.reverse_append, List.reverse_singleton,
    List.singleton_append, List.filter_cons_of_pos hn, freeBefore]

theorem isFree_cons (roles : List Role) (pairs : List (Nat × Nat)) (o c : Nat) :
    isFree roles ((o, c) :: pairs) = fun x => decide (x ≠ o) && isFree roles pairs x := by
  funext x
  by_cases hx : x = o
  · simp [isFree, hx]
  · have hb : (x == o) = false := by simpa using hx
    simp [isFree, hx, hb]

/-- A closing brace takes the nearest free one. -/
theorem freeBefore_succ_close {n : Nat} (h : roles[n]? = some .closeBrace) :
    freeBefore roles (n + 1) = (freeBefore roles n).tail := by
  have hn : ¬ isFree roles (pairsBefore roles (n + 1)) n = true := by
    rw [isFree_iff]
    simp [h]
  rw [freeBefore, List.range_succ, List.reverse_append, List.reverse_singleton,
    List.singleton_append, List.filter_cons_of_neg hn, pairsBefore_succ h]
  have hd := freeBefore_descending roles n
  cases hf : freeBefore roles n with
  | nil => simpa [freeBefore] using hf
  | cons o rest =>
    have hrest : rest.filter (fun x => decide (x ≠ o)) = rest := by
      rw [List.filter_eq_self]
      intro x hx
      rw [hf] at hd
      have := List.rel_of_pairwise_cons hd hx
      simp
      omega
    simp only [List.head?_cons, Option.map_some, Option.toList_some, List.singleton_append,
      isFree_cons, List.tail_cons]
    rw [← List.filter_filter, ← freeBefore, hf, List.filter_cons_of_neg (by simp), hrest]

theorem freeBefore_succ_of_ne {n : Nat} (ho : roles[n]? ≠ some .openBrace)
    (hc : roles[n]? ≠ some .closeBrace) : freeBefore roles (n + 1) = freeBefore roles n := by
  have hn : ¬ isFree roles (pairsBefore roles n) n = true := by
    rw [isFree_iff]
    simp [ho]
  rw [freeBefore, pairsBefore_succ_of_ne hc, List.range_succ, List.reverse_append,
    List.reverse_singleton, List.singleton_append, List.filter_cons_of_neg hn, freeBefore]

theorem straysBefore_succ_of_ne {n : Nat} (h : roles[n]? ≠ some .closeBrace) :
    straysBefore roles (n + 1) = straysBefore roles n := by
  have hn : ¬ isStray roles (pairsBefore roles n) n = true := by
    rw [isStray_iff]
    simp [h]
  simp [straysBefore, pairsBefore_succ_of_ne h, List.range_succ, hn]

/-- A closing brace that finds no free brace stays without partner. -/
theorem straysBefore_succ_close {n : Nat} (h : roles[n]? = some .closeBrace) :
    straysBefore roles (n + 1) =
      straysBefore roles n ++ if freeBefore roles n = [] then [n] else [] := by
  have hnew : isStray roles (pairsBefore roles (n + 1)) n = true ↔ freeBefore roles n = [] := by
    rw [isStray_iff]
    simp only [mem_pairsBefore, h, Nat.lt_succ_self, true_and]
    cases freeBefore roles n <;> simp
  have hold : (List.range n).filter (isStray roles (pairsBefore roles (n + 1))) =
      straysBefore roles n := by
    rw [straysBefore]
    refine List.filter_congr fun c hc => ?_
    have hc : c < n := List.mem_range.mp hc
    rw [Bool.eq_iff_iff, isStray_iff, isStray_iff]
    simp only [mem_pairsBefore, hc, show c < n + 1 by omega]
  rw [straysBefore, List.range_succ, List.filter_append, hold]
  by_cases hf : freeBefore roles n = []
  · rw [if_pos hf, List.filter_cons_of_pos (hnew.mpr hf), List.filter_nil]
  · rw [if_neg hf, List.filter_cons_of_neg (fun hs => hf (hnew.mp hs)), List.filter_nil]

/-- What a scan has counted after `n` bytes are the free and the stray braces so far. -/
structure Tally.Tracks (t : Tally) (roles : List Role) (n : Nat) : Prop where
  pending : t.pending = freeBefore roles n
  firstNegative : t.firstNegative = (straysBefore roles n).head?
  depth : t.depth = (freeBefore roles n).length - (straysBefore roles n).length

theorem Tally.tracks_start (roles : List Role) : Tally.start.Tracks roles 0 :=
  ⟨rfl, rfl, rfl⟩

theorem Tally.Tracks.opened {t : Tally} {n : Nat} (h : t.Tracks roles n)
    (hr : roles[n]? = some .openBrace) : (t.opened n).Tracks roles (n + 1) := by
  have hs : straysBefore roles (n + 1) = straysBefore roles n :=
    straysBefore_succ_of_ne (by simp [hr])
  obtain ⟨hp, hf, hd⟩ := h
  refine ⟨?_, ?_, ?_⟩
  · rw [Tally.opened, freeBefore_succ_open hr, hp]
  · rw [Tally.opened, hs, hf]
  · simp only [Tally.opened, freeBefore_succ_open hr, hs, hd, List.length_cons]
    omega

/-- The depth goes below zero for the first time when a brace finds no partner for the first time:
up to there it is the number of free braces. -/
theorem Tally.Tracks.closed {t : Tally} {n : Nat} (h : t.Tracks roles n)
    (hr : roles[n]? = some .closeBrace) : (t.closed n).Tracks roles (n + 1) := by
  obtain ⟨hp, hf, hd⟩ := h
  cases hfree : freeBefore roles n with
  | nil =>
    have hs : straysBefore roles (n + 1) = straysBefore roles n ++ [n] := by
      rw [straysBefore_succ_close hr, if_pos hfree]
    rw [hfree] at hd
    have hneg : t.depth - 1 < 0 := by
      simp at hd
      omega
    refine ⟨?_, ?_, ?_⟩
    · rw [Tally.closed, freeBefore_succ_close hr, hp]
    · simp [Tally.closed, hs, hf, hneg]
    · simp only [Tally.closed, freeBefore_succ_close hr, hfree, hs, hd, List.tail_nil,
        List.length_append, List.length_nil, List.length_singleton]
      omega
  | cons o rest =>
    have hs : straysBefore roles (n + 1) = straysBefore roles n := by
      rw [straysBefore_succ_close hr, if_neg (by simp [hfree]), List.append_nil]
    rw [hfree] at hd
    refine ⟨?_, ?_, ?_⟩
    · rw [Tally.closed, freeBefore_succ_close hr, hp]
    · rw [Tally.closed, hs, hf]
      cases hstray : straysBefore roles n with
      | nil =>
        have hnonneg : ¬ t.depth - 1 < 0 := by
          simp [hstray] at hd
          omega
        simp [hnonneg]
      | cons c cs => rfl
    · simp only [Tally.closed, freeBefore_succ_close hr, hfree, hs, hd, List.tail_cons,
        List.length_cons]
      omega

/-- One byte keeps the account. -/
theorem Tally.Tracks.count {t : Tally} {n : Nat} {r : Role} (h : t.Tracks roles n)
    (hr : roles[n]? = some r) : (t.count n r).Tracks roles (n + 1) := by
  cases r with
  | openBrace => exact h.opened hr
  | closeBrace => exact h.closed hr
  | code | inert | placeholderOpen | placeholderClose =>
    have hs : straysBefore roles (n + 1) = straysBefore roles n :=
      straysBefore_succ_of_ne (by simp [hr])
    have hfree : freeBefore roles (n + 1) = freeBefore roles n :=
      freeBefore_succ_of_ne (by simp [hr]) (by simp [hr])
    refine ⟨?_, ?_, ?_⟩
    · rw [Tally.count, hfree, h.pending]
    · rw [Tally.count, hs, h.firstNegative]
    · rw [Tally.count, hfree, hs, h.depth]

/-- A negative depth has a cause. -/
theorem Tally.Tracks.firstNegative_ne_none {t : Tally} {n : Nat} (h : t.Tracks roles n)
    (hd : t.depth < 0) : t.firstNegative ≠ none := by
  intro hf
  have hs : straysBefore roles n = [] := by
    rw [← List.head?_eq_none_iff, ← h.firstNegative, hf]
  have hdepth := h.depth
  rw [hs, List.length_nil] at hdepth
  omega

/-- After every prefix of a text the scan has counted the matching of that prefix. -/
theorem Tally.tracks_countAll (roles : List Role) (n : Nat) (h : n ≤ roles.length) :
    (Tally.start.countAll (roles.take n).zipIdx).Tracks roles n := by
  induction n with
  | zero => exact tracks_start roles
  | succ n ih =>
    have hn : n < roles.length := by omega
    have hr : roles[n]? = some roles[n] := List.getElem?_eq_getElem hn
    have hc : Tally.start.countAll (roles.take (n + 1)).zipIdx =
        (Tally.start.countAll (roles.take n).zipIdx).count n roles[n] := by
      rw [List.take_succ_eq_append_getElem hn, List.zipIdx_append, countAll_append]
      simp [Nat.min_eq_left (Nat.le_of_lt hn)]
    rw [hc]
    exact (ih (by omega)).count hr

/-- The closing braces of a text without partner, ascending. -/
def strays (roles : List Role) : List Nat := straysBefore roles roles.length

theorem mem_strays {c : Nat} :
    c ∈ strays roles ↔ roles[c]? = some .closeBrace ∧ ∀ o, ¬ Paired roles o c := by
  rw [strays, straysBefore, List.mem_filter, isStray_iff, List.mem_range]
  constructor
  · rintro ⟨-, h⟩
    exact h
  · rintro ⟨hr, hp⟩
    exact ⟨(List.getElem?_eq_some_iff.mp hr).1, hr, hp⟩

theorem not_mem_strays {c : Nat} :
    c ∉ strays roles ↔ (roles[c]? = some .closeBrace → ∃ o, Paired roles o c) := by
  rw [mem_strays]
  simp

/-- The first of the braces without partner is the least one. -/
theorem head?_strays_eq_some_iff {c : Nat} :
    (strays roles).head? = some c ↔ c ∈ strays roles ∧ ∀ c' < c, c' ∉ strays roles := by
  simp only [strays, straysBefore, List.head?_filter, List.find?_range_eq_some, List.mem_filter]
  constructor
  · rintro ⟨hs, hc, hl⟩
    refine ⟨⟨hc, hs⟩, fun c' hlt h => ?_⟩
    exact absurd h.2 (by simpa using hl c' hlt)
  · rintro ⟨⟨hc, hs⟩, hl⟩
    refine ⟨hs, hc, fun c' hlt => ?_⟩
    have hn : c' ∈ List.range roles.length := by
      rw [List.mem_range] at hc ⊢
      omega
    simpa using fun h => hl c' hlt ⟨hn, h⟩

theorem strays_eq_nil_iff :
    strays roles = [] ↔ ∀ c, roles[c]? = some .closeBrace → ∃ o, Paired roles o c := by
  rw [List.eq_nil_iff_forall_not_mem]
  exact forall_congr' fun c => not_mem_strays

/-- The scan of a text tracks its matching. -/
theorem Tally.tracks_readAll (bytes : List UInt8) (n : Nat) (h : n ≤ bytes.length) :
    (Tally.start.readAll (bytes.take n).zipIdx).Tracks (Lexer.start.roles bytes) n := by
  have ht := tracks_countAll (Lexer.start.roles bytes) n (by simpa using h)
  rw [readAll_zipIdx]
  have hr : Tally.start.lexer.roles (bytes.take n) = (Lexer.start.roles bytes).take n :=
    Lexer.roles_take _ _ _
  rw [hr]
  exact ⟨ht.pending, ht.firstNegative, ht.depth⟩

theorem Tally.tracks_readAll_length (bytes : List UInt8) :
    (Tally.start.readAll bytes.zipIdx).Tracks (Lexer.start.roles bytes)
      (Lexer.start.roles bytes).length := by
  have ht := tracks_readAll bytes bytes.length (Nat.le_refl _)
  rwa [List.take_length, ← Lexer.length_roles Lexer.start bytes] at ht

/-- What the counters of a whole text say about the pairs of its braces. -/
structure Balance.Reports (r : Balance) (roles : List Role) : Prop where
  unclosed_ascending : r.unclosed.Pairwise (· < ·)
  mem_unclosed : ∀ o, o ∈ r.unclosed ↔
    roles[o]? = some .openBrace ∧ ∀ c, ¬ Paired roles o c
  firstNegative_eq_some : ∀ c, r.firstNegative = some c ↔
    (roles[c]? = some .closeBrace ∧ ∀ o, ¬ Paired roles o c) ∧
      ∀ c' < c, roles[c']? = some .closeBrace → ∃ o, Paired roles o c'
  firstNegative_eq_none : r.firstNegative = none ↔
    ∀ c, roles[c]? = some .closeBrace → ∃ o, Paired roles o c
  finalDepth_eq_count : r.finalDepth = roles.count .openBrace - roles.count .closeBrace
  finalDepth_eq_length : r.finalDepth = r.unclosed.length - (strays roles).length
  isBalanced_iff : r.isBalanced = true ↔
    (∀ o, roles[o]? = some .openBrace → ∃ c, Paired roles o c) ∧
      ∀ c, roles[c]? = some .closeBrace → ∃ o, Paired roles o c
  unclosed_of_isBalanced : r.isBalanced = true → r.unclosed = []

namespace Balance

variable {t : Tally}

theorem unclosed_ofTally (h : t.Tracks roles roles.length) :
    (ofTally t).unclosed = (freeBefore roles roles.length).reverse := by
  rw [ofTally, Tally.unclosed, h.pending]

theorem mem_unclosed_ofTally (h : t.Tracks roles roles.length) (o : Nat) :
    o ∈ (ofTally t).unclosed ↔ roles[o]? = some .openBrace ∧ ∀ c, ¬ Paired roles o c := by
  rw [unclosed_ofTally h, List.mem_reverse, mem_freeBefore]
  constructor
  · rintro ⟨-, ho⟩
    exact ho
  · rintro ⟨hr, hp⟩
    exact ⟨(List.getElem?_eq_some_iff.mp hr).1, hr, hp⟩

theorem finalDepth_ofTally (h : t.Tracks roles roles.length) :
    (ofTally t).finalDepth = (ofTally t).unclosed.length - (strays roles).length := by
  rw [unclosed_ofTally h, List.length_reverse]
  exact h.depth

/-- A report is balanced when no closing brace is without partner and nothing is left open. -/
theorem isBalanced_ofTally (h : t.Tracks roles roles.length) :
    (ofTally t).isBalanced = true ↔ (ofTally t).unclosed = [] ∧ strays roles = [] := by
  have hf : (ofTally t).firstNegative = (strays roles).head? := h.firstNegative
  have hd := finalDepth_ofTally h
  rw [isBalanced, Bool.and_eq_true, beq_iff_eq, hf]
  cases hs : strays roles with
  | nil =>
    rw [hs] at hd
    simp only [List.length_nil] at hd
    simp only [List.head?_nil, Option.isNone_none, and_true]
    rw [← List.length_eq_zero_iff]
    omega
  | cons c cs => simp

theorem reports_ofTally (h : t.Tracks roles roles.length) (hd : t.depth = surplus roles) :
    (ofTally t).Reports roles where
  unclosed_ascending := by
    rw [unclosed_ofTally h, List.pairwise_reverse]
    exact freeBefore_descending roles roles.length
  mem_unclosed := mem_unclosed_ofTally h
  firstNegative_eq_some := by
    intro c
    have hf : (ofTally t).firstNegative = (strays roles).head? := h.firstNegative
    rw [hf, head?_strays_eq_some_iff, mem_strays]
    simp only [not_mem_strays]
  firstNegative_eq_none := by
    have hf : (ofTally t).firstNegative = (strays roles).head? := h.firstNegative
    rw [hf, List.head?_eq_none_iff, strays_eq_nil_iff]
  finalDepth_eq_count := hd.trans (surplus_eq_count roles)
  finalDepth_eq_length := finalDepth_ofTally h
  isBalanced_iff := by
    rw [isBalanced_ofTally h, strays_eq_nil_iff, List.eq_nil_iff_forall_not_mem]
    simp only [mem_unclosed_ofTally h, not_and, Classical.not_forall,
      Classical.not_not]
  unclosed_of_isBalanced := fun hb => ((isBalanced_ofTally h).mp hb).1

end Balance

/-- The whole scan of a text reports the matching of the braces that count in it. -/
theorem Buffer.balance_reports_matching (bytes : List UInt8) (h : bytes.length ≤ maxOffset) :
    ∃ readings report, Lexer.start.trace bytes = .ok readings ∧
      (Buffer.ofBytes bytes).balance = .ok report ∧ report.Reports (readings.map Prod.fst) := by
  refine ⟨_, _, Lexer.start_trace h, Buffer.balance_ofBytes h, ?_⟩
  have hd : (Tally.start.readAll bytes.zipIdx).depth = surplus (Lexer.start.roles bytes) := by
    rw [Tally.readAll_zipIdx]
    exact Tally.depth_countAll_start _
  exact Balance.reports_ofTally (Tally.tracks_readAll_length bytes) hd

/-- A closing brace without partner does not close what is opened after it. -/
theorem Buffer.balance_of_stray :
    ∃ readings, Lexer.start.trace [Byte.closeBrace, Byte.openBrace, Byte.closeBrace,
        Byte.openBrace] = .ok readings ∧
      (⟨0, some 0, [3], .code⟩ : Balance).Reports (readings.map Prod.fst) := by
  obtain ⟨readings, report, ht, hb, hr⟩ := Buffer.balance_reports_matching
    [Byte.closeBrace, Byte.openBrace, Byte.closeBrace, Byte.openBrace] (by decide)
  have he : (⟨0, some 0, [3], .code⟩ : Balance) = report := Except.ok.inj hb
  exact ⟨readings, ht, he ▸ hr⟩

end BraceBalance
