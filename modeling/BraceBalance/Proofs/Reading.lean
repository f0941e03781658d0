import BraceBalance.Classification

/-!
# Reading without faults

What a byte of a role does to the region is one relation, `Lexer.Moves`. The lexer answers in `Except
Fault` because the placeholder depth is kept in a word, and it has no other fault: as long as that depth
fits, its trace and its last state are those of the lexer without the check, on which all later
arguments rest. One byte raises the depth by at most one, so a text no longer than the greatest offset
never meets the bound.
-/

namespace BraceBalance

/-- What a byte adds to the depth of braces. -/
def Role.weight : Role → Int
  | openBrace => 1
  | closeBrace => -1
  | code | inert | placeholderOpen | placeholderClose => 0

theorem Role.weight_mem (r : Role) : -1 ≤ r.weight ∧ r.weight ≤ 1 := by
  cases r <;> decide

theorem Region.placeholderDepth_of_isInert {region : Region} (h : region.isInert = true) :
    region.placeholderDepth = 0 := by
  cases region <;> simp_all [Region.isInert, Region.placeholderDepth]

namespace Lexer

variable {s : Lexer} {bytes : List UInt8}

/-- The lexer after all of `bytes`, with no bound on the placeholder depth. -/
def after (s : Lexer) (bytes : List UInt8) : Lexer := bytes.foldl step s

/-- The role of each byte and the region after it, with no bound on the placeholder depth. -/
def readings (s : Lexer) : List UInt8 → List (Role × Region)
  | [] => []
  | b :: bytes => (s.role b, (s.step b).region) :: (s.step b).readings bytes

def roles (s : Lexer) (bytes : List UInt8) : List Role := (s.readings bytes).map Prod.fst

@[simp] theorem after_nil (s : Lexer) : s.after [] = s := rfl

@[simp] theorem after_cons (s : Lexer) (b : UInt8) (bytes : List UInt8) :
    s.after (b :: bytes) = (s.step b).after bytes := rfl

theorem after_append (s : Lexer) (u v : List UInt8) : s.after (u ++ v) = (s.after u).after v := by
  simp [after]

@[simp] theorem readings_nil (s : Lexer) : s.readings [] = [] := rfl

@[simp] theorem readings_cons (s : Lexer) (b : UInt8) (bytes : List UInt8) :
    s.readings (b :: bytes) = (s.role b, (s.step b).region) :: (s.step b).readings bytes := rfl

theorem length_readings (s : Lexer) (bytes : List UInt8) :
    (s.readings bytes).length = bytes.length := by
  induction bytes generalizing s with
  | nil => rfl
  | cons b bytes ih => rw [readings_cons, List.length_cons, ih, List.length_cons]

theorem readings_append (s : Lexer) (u v : List UInt8) :
    s.readings (u ++ v) = s.readings u ++ (s.after u).readings v := by
  induction u generalizing s with
  | nil => rfl
  | cons b u ih =>
    rw [List.cons_append, readings_cons, readings_cons, ih, after_cons, List.cons_append]

@[simp] theorem roles_nil (s : Lexer) : s.roles [] = [] := rfl

@[simp] theorem roles_cons (s : Lexer) (b : UInt8) (bytes : List UInt8) :
    s.roles (b :: bytes) = s.role b :: (s.step b).roles bytes := rfl

@[simp] theorem length_roles (s : Lexer) (bytes : List UInt8) :
    (s.roles bytes).length = bytes.length := by
  induction bytes generalizing s with
  | nil => rfl
  | cons b bytes ih => simp [ih]

theorem roles_append (s : Lexer) (u v : List UInt8) :
    s.roles (u ++ v) = s.roles u ++ (s.after u).roles v := by
  rw [roles, readings_append, List.map_append]
  rfl

/-- A prefix of a text is read as it is in the text. -/
theorem roles_take (s : Lexer) (bytes : List UInt8) (n : Nat) :
    s.roles (bytes.take n) = (s.roles bytes).take n := by
  induction bytes generalizing s n with
  | nil => simp
  | cons b bytes ih => cases n <;> simp [ih]

theorem roles_drop (s : Lexer) (bytes : List UInt8) (n : Nat) :
    (s.after (bytes.take n)).roles (bytes.drop n) = (s.roles bytes).drop n := by
  induction bytes generalizing s n with
  | nil => simp
  | cons b bytes ih => cases n <;> simp [ih]

theorem getElem?_roles (s : Lexer) (bytes : List UInt8) (n : Nat) :
    (s.roles bytes)[n]? = bytes[n]?.map (s.after (bytes.take n)).role := by
  induction bytes generalizing s n with
  | nil => simp
  | cons b bytes ih => cases n <;> simp [ih]

theorem getElem?_roles_eq_some_iff {n : Nat} {b : UInt8} {r : Role} (hb : bytes[n]? = some b) :
    (s.roles bytes)[n]? = some r ↔ (s.after (bytes.take n)).role b = r := by
  rw [getElem?_roles, hb, Option.map_some, Option.some.injEq]

theorem lt_length_of_getElem?_roles {n : Nat} {r : Role} (h : (s.roles bytes)[n]? = some r) :
    n < bytes.length := by
  rw [← length_roles s bytes]
  exact (List.getElem?_eq_some_iff.mp h).1

theorem getElem?_readings (s : Lexer) (bytes : List UInt8) (n : Nat) :
    (s.readings bytes)[n]? = bytes[n]?.map fun b =>
      ((s.after (bytes.take n)).role b, ((s.after (bytes.take n)).step b).region) := by
  induction bytes generalizing s n with
  | nil => simp
  | cons b bytes ih => cases n <;> simp [ih]

theorem after_take_succ (s : Lexer) {n : Nat} (h : n < bytes.length) :
    s.after (bytes.take (n + 1)) = (s.after (bytes.take n)).step bytes[n] := by
  rw [List.take_succ_eq_append_getElem h, after_append]
  rfl

theorem after_take_of_getElem? (s : Lexer) {n : Nat} {b : UInt8} (h : bytes[n]? = some b) :
    s.after (bytes.take (n + 1)) = (s.after (bytes.take n)).step b := by
  obtain ⟨hn, rfl⟩ := List.getElem?_eq_some_iff.mp h
  exact after_take_succ s hn

/-- How a byte with a role leads from one region to the next, whatever stands before that byte. -/
inductive Moves : Role → Region → Region → Prop where
  | plain : Moves .code .code .code
  | opened : Moves .openBrace .code .code
  | closed : Moves .closeBrace .code .code
  | enter {next : Region} : next.isInert = true → Moves .inert .code next
  | stay {region : Region} : region.isInert = true → Moves .inert region region
  | leave {region : Region} : region.isInert = true → Moves .inert region .code
  | marker : Moves .placeholderOpen (.template 0) (.template 1)
  | plainInside {depth : Nat} : Moves .code (.template (depth + 1)) (.template (depth + 1))
  | openedInside {depth : Nat} : Moves .openBrace (.template (depth + 1)) (.template (depth + 2))
  | closedInside {depth : Nat} : Moves .closeBrace (.template (depth + 2)) (.template (depth + 1))
  | finished : Moves .placeholderClose (.template 1) (.template 0)
  /-- A backtick ends the literal from within its placeholder. -/
  | abandoned {depth : Nat} : Moves .inert (.template (depth + 1)) .code

theorem moves_step (s : Lexer) (b : UInt8) : Moves (s.role b) s.region (s.step b).region := by
  rw [region_step, role, move]
  cases s.region with
  | code =>
    grind [moveInCode, Move.single, Move.pair, Region.isInert, Moves.plain, Moves.opened,
      Moves.closed, Moves.enter]
  | lineComment =>
    grind [moveInLineComment, Move.single, Region.isInert, Moves.stay, Moves.leave]
  | blockComment =>
    grind [moveInBlockComment, Move.single, Move.pair, Region.isInert, Moves.stay, Moves.leave]
  | quoted q => grind [moveInQuoted, Move.single, Region.isInert, Moves.stay, Moves.leave]
  | template depth =>
    cases depth with
    | zero =>
      grind [moveInTemplateText, Move.single, Move.pair, Region.isInert, Moves.stay, Moves.leave,
        Moves.marker]
    | succ depth =>
      simp only [moveInPlaceholder]
      split
      · exact .plainInside
      split
      · exact .abandoned
      split
      · exact .openedInside
      split
      · cases depth with
        | zero => exact .finished
        | succ depth => exact .closedInside
      · exact .plainInside

/-- Within a placeholder the lexer's own depth moves with the braces that count. -/
theorem Moves.placeholderDepth {role : Role} {region next : Region} (h : Moves role region next) :
    next.placeholderDepth ≤ 1 ∨
      (next.placeholderDepth : Int) = region.placeholderDepth + role.weight := by
  cases h with
  | plain | opened | closed | leave | marker | finished | abandoned => exact .inl (by decide)
  | enter hi => exact .inl (by rw [Region.placeholderDepth_of_isInert hi]; decide)
  | stay | plainInside => exact .inr (Int.add_zero _).symm
  | openedInside => exact .inr rfl
  | closedInside =>
    refine .inr ?_
    simp only [Region.placeholderDepth, Role.weight]
    omega

theorem placeholderDepth_step (s : Lexer) (b : UInt8) :
    (s.step b).region.placeholderDepth ≤ 1 ∨
      ((s.step b).region.placeholderDepth : Int) =
        s.region.placeholderDepth + (s.role b).weight :=
  (moves_step s b).placeholderDepth

theorem placeholderDepth_step_le (s : Lexer) (b : UInt8) :
    (s.step b).region.placeholderDepth ≤ s.region.placeholderDepth + 1 := by
  have hw := (s.role b).weight_mem
  have := placeholderDepth_step s b
  omega

/-- A placeholder cannot get deeper than the text is long. -/
theorem placeholderDepth_after_le_length (s : Lexer) (bytes : List UInt8) :
    (s.after bytes).region.placeholderDepth ≤ s.region.placeholderDepth + bytes.length := by
  induction bytes generalizing s with
  | nil => exact Nat.le_refl _
  | cons b bytes ih =>
    have hs := placeholderDepth_step_le s b
    have ha := ih (s.step b)
    rw [after_cons, List.length_cons]
    omega

theorem feed_eq_ok (b : UInt8) (h : s.region.placeholderDepth + 1 ≤ maxOffset) :
    s.feed b = .ok (s.role b, s.step b) := by
  have := placeholderDepth_step_le s b
  exact feed_of_le (by omega)

theorem eq_step_of_feed {b : UInt8} {role : Role} {next : Lexer} (h : s.feed b = .ok (role, next)) :
    next = s.step b := by
  rw [feed] at h
  split at h
  · exact (Prod.mk.inj (Except.ok.inj h)).2.symm
  · cases h

/-- No placeholder on the way through `bytes` gets too deep for its word. -/
def Fits (s : Lexer) (bytes : List UInt8) : Prop :=
  ∀ reading ∈ s.readings bytes, reading.2.placeholderDepth ≤ maxOffset

instance (s : Lexer) (bytes : List UInt8) : Decidable (s.Fits bytes) :=
  inferInstanceAs (Decidable (∀ reading ∈ s.readings bytes, _))

theorem fits_nil (s : Lexer) : s.Fits [] := nofun

theorem fits_cons {b : UInt8} :
    s.Fits (b :: bytes) ↔
      (s.step b).region.placeholderDepth ≤ maxOffset ∧ (s.step b).Fits bytes := by
  rw [Fits, readings_cons, List.forall_mem_cons]
  rfl

theorem fits_of_le (s : Lexer) (bytes : List UInt8)
    (h : s.region.placeholderDepth + bytes.length ≤ maxOffset) : s.Fits bytes := by
  induction bytes generalizing s with
  | nil => exact s.fits_nil
  | cons b bytes ih =>
    have hd := placeholderDepth_step_le s b
    rw [List.length_cons] at h
    exact fits_cons.mpr ⟨by omega, ih (s.step b) (by omega)⟩

/-- The only fault is a placeholder that gets too deep. -/
theorem run_eq (s : Lexer) (bytes : List UInt8) :
    s.run bytes = if s.Fits bytes then .ok (s.after bytes) else .error .overflow := by
  induction bytes generalizing s with
  | nil => rw [if_pos s.fits_nil, run_nil, after_nil]
  | cons b bytes ih =>
    rw [run_cons, feed, after_cons]
    by_cases hb : (s.step b).region.placeholderDepth ≤ maxOffset
    · simp only [hb, fits_cons, true_and, if_true]
      exact ih (s.step b)
    · simp only [hb, fits_cons, false_and, if_false]
      rfl

theorem eq_after_of_run {last : Lexer} (h : s.run bytes = .ok last) :
    last = s.after bytes := by
  rw [run_eq] at h
  split at h
  · exact (Except.ok.inj h).symm
  · cases h

theorem foldlM_traceStep (seen : List (Role × Region)) (s : Lexer) (bytes : List UInt8) :
    bytes.foldlM traceStep (seen, s) =
      if s.Fits bytes then .ok ((s.readings bytes).reverse ++ seen, s.after bytes)
      else .error .overflow := by
  induction bytes generalizing s seen with
  | nil => rw [if_pos s.fits_nil]; rfl
  | cons b bytes ih =>
    rw [List.foldlM_cons, traceStep, feed, readings_cons, after_cons]
    by_cases hb : (s.step b).region.placeholderDepth ≤ maxOffset
    · simp only [hb, fits_cons, true_and, if_true, List.reverse_cons, List.append_assoc,
        List.singleton_append]
      exact ih _ (s.step b)
    · simp only [hb, fits_cons, false_and, if_false]
      rfl

theorem trace_eq (s : Lexer) (bytes : List UInt8) :
    s.trace bytes = if s.Fits bytes then .ok (s.readings bytes) else .error .overflow := by
  rw [trace, foldlM_traceStep]
  split
  · simp [bind, Except.bind, pure, Except.pure]
  · rfl

theorem start_fits (h : bytes.length ≤ maxOffset) : start.Fits bytes :=
  fits_of_le start bytes (by simpa [start, Region.placeholderDepth] using h)

/-- Every text of admissible length is read to its end. -/
theorem start_run (h : bytes.length ≤ maxOffset) : start.run bytes = .ok (start.after bytes) := by
  rw [run_eq, if_pos (start_fits h)]

theorem start_trace (h : bytes.length ≤ maxOffset) :
    start.trace bytes = .ok (start.readings bytes) := by
  rw [trace_eq, if_pos (start_fits h)]

end Lexer

end BraceBalance
