import BraceBalance.Tally
import BraceBalance.Proofs.Reading

/-!
# Counting without faults

What a scan counts depends on the roles of the bytes alone. A text of admissible length overflows
neither the depth nor the placeholder depth, so a scan to its end is a plain fold over the roles, and
a scan that stops at the balance stops at the first brace that brings the number of open braces back
to zero.
-/

namespace BraceBalance

/-- Opening braces minus closing braces. -/
def surplus : List Role → Int
  | [] => 0
  | r :: roles => r.weight + surplus roles

@[simp] theorem surplus_nil : surplus [] = 0 := rfl

@[simp] theorem surplus_cons (r : Role) (roles : List Role) :
    surplus (r :: roles) = r.weight + surplus roles := rfl

theorem surplus_eq_count (roles : List Role) :
    surplus roles = roles.count .openBrace - roles.count .closeBrace := by
  induction roles with
  | nil => rfl
  | cons r roles ih => cases r <;> simp [Role.weight, ih] <;> omega

/-- Where the innermost of `depth + 1` open braces that encloses all the others is closed: the index
of the first closing brace that leaves none of them open. -/
def closingIndex (depth : Nat) : List Role → Option Nat
  | [] => none
  | .openBrace :: roles => (closingIndex (depth + 1) roles).map (· + 1)
  | .closeBrace :: roles =>
    match depth with
    | 0 => some 0
    | depth + 1 => (closingIndex depth roles).map (· + 1)
  | .code :: roles | .inert :: roles | .placeholderOpen :: roles | .placeholderClose :: roles =>
    (closingIndex depth roles).map (· + 1)

/-- The brace at `n` closes, with `depth` braces to be closed before, and no earlier one does. -/
structure ClosesAt (depth : Int) (roles : List Role) (n : Nat) : Prop where
  role : roles[n]? = some .closeBrace
  surplus_eq : surplus (roles.take n) = -depth
  le_surplus : ∀ j ≤ n, -depth ≤ surplus (roles.take j)

theorem closesAt_zero_iff {depth : Int} {r : Role} {roles : List Role} :
    ClosesAt depth (r :: roles) 0 ↔ r = .closeBrace ∧ depth = 0 := by
  constructor
  · rintro ⟨hr, hn, -⟩
    exact ⟨by simpa using hr, by simp at hn; omega⟩
  · rintro ⟨rfl, rfl⟩
    exact ⟨rfl, rfl, fun j hj => by simp [Nat.le_zero.mp hj]⟩

theorem closesAt_succ_iff {depth : Int} (h : 0 ≤ depth) {r : Role} {roles : List Role} {n : Nat} :
    ClosesAt depth (r :: roles) (n + 1) ↔ ClosesAt (depth + r.weight) roles n := by
  constructor
  · rintro ⟨hr, hn, hl⟩
    refine ⟨by simpa using hr, by simp at hn; omega, fun j hj => ?_⟩
    have := hl (j + 1) (by omega)
    simp at this
    omega
  · rintro ⟨hr, hn, hl⟩
    refine ⟨by simpa using hr, by simp; omega, fun j hj => ?_⟩
    cases j with
    | zero => simp; omega
    | succ j =>
      have := hl j (by omega)
      simp
      omega

/-- Before a brace can close anything, some brace has to be open. -/
theorem ClosesAt.nonneg {depth : Int} {roles : List Role} {n : Nat} (h : ClosesAt depth roles n) :
    0 ≤ depth := by
  have := h.le_surplus 0 (by omega)
  simp at this
  omega

/-- A brace either closes the enclosing one, or leaves the search to go on with another depth. -/
theorem closingIndex_cons (depth : Nat) (r : Role) :
    r = .closeBrace ∧ depth = 0 ∨
      ∃ depth' : Nat, (depth' : Int) = depth + r.weight ∧
        ∀ roles, closingIndex depth (r :: roles) = (closingIndex depth' roles).map (· + 1) := by
  cases r with
  | openBrace => exact .inr ⟨depth + 1, rfl, fun _ => rfl⟩
  | closeBrace =>
    cases depth with
    | zero => exact .inl ⟨rfl, rfl⟩
    | succ depth =>
      refine .inr ⟨depth, ?_, fun _ => rfl⟩
      rw [Role.weight]
      omega
  | code | inert | placeholderOpen | placeholderClose => exact .inr ⟨depth, rfl, fun _ => rfl⟩

theorem closingIndex_eq_some_iff {depth : Nat} {roles : List Role} {n : Nat} :
    closingIndex depth roles = some n ↔ ClosesAt depth roles n := by
  induction roles generalizing depth n with
  | nil =>
    constructor
    · intro h
      cases h
    · intro h
      simpa using h.role
  | cons r roles ih =>
    obtain ⟨rfl, rfl⟩ | ⟨depth', hd, hc⟩ := closingIndex_cons depth r
    · cases n with
      | zero =>
        rw [closesAt_zero_iff]
        exact ⟨fun _ => ⟨rfl, rfl⟩, fun _ => rfl⟩
      | succ n =>
        rw [closesAt_succ_iff (by omega)]
        constructor
        · intro h
          cases h
        · intro h
          exact absurd h.nonneg (by decide)
    · rw [hc]
      cases n with
      | zero =>
        rw [closesAt_zero_iff]
        constructor
        · intro h
          obtain ⟨i, -, hi⟩ := Option.map_eq_some_iff.mp h
          omega
        · rintro ⟨rfl, hz⟩
          rw [hz, Role.weight] at hd
          omega
      | succ n =>
        rw [closesAt_succ_iff (by omega), ← hd, ← ih, Option.map_eq_some_iff]
        simp

theorem closesAt_unique (depth : Nat) {roles : List Role} {m n : Nat}
    (hm : ClosesAt depth roles m) (hn : ClosesAt depth roles n) : m = n := by
  rw [← closingIndex_eq_some_iff] at hm hn
  exact Option.some.inj (hm.symm.trans hn)

/-- As many braces closed as opened, and no prefix with more closed than opened. -/
structure Balanced (roles : List Role) : Prop where
  surplus_eq : surplus roles = 0
  nonneg : ∀ j, 0 ≤ surplus (roles.take j)

/-- The brace that closes an enclosing one is the one with a balanced stretch before it. -/
theorem closesAt_zero_iff_balanced {roles : List Role} {n : Nat} :
    ClosesAt 0 roles n ↔ roles[n]? = some .closeBrace ∧ Balanced (roles.take n) := by
  constructor
  · rintro ⟨hr, hn, hl⟩
    refine ⟨hr, by simpa using hn, fun j => ?_⟩
    rw [List.take_take]
    simpa using hl (min j n) (Nat.min_le_right _ _)
  · rintro ⟨hr, hn, hl⟩
    refine ⟨hr, by simpa using hn, fun j hj => ?_⟩
    have hj' := hl j
    rw [List.take_take, Nat.min_eq_left hj] at hj'
    simpa using hj'

namespace Tally

variable {t : Tally}

/-- The tally after one byte, with no bound on its counters. -/
def read (t : Tally) (b : UInt8) (offset : Nat) : Tally :=
  count { t with lexer := t.lexer.step b } offset (t.lexer.role b)

def readAll (t : Tally) (bytes : List (UInt8 × Nat)) : Tally :=
  bytes.foldl (fun t byte => t.read byte.1 byte.2) t

/-- Counts bytes whose roles are known. -/
def countAll (t : Tally) (roles : List (Role × Nat)) : Tally :=
  roles.foldl (fun t role => t.count role.2 role.1) t

/-- No counter can overflow within the next `n` bytes. -/
structure HasRoom (t : Tally) (n : Nat) : Prop where
  placeholder : t.lexer.region.placeholderDepth + n ≤ maxOffset
  lower : minDepth + n ≤ t.depth
  upper : t.depth + n ≤ maxDepth

@[simp] theorem depth_count (t : Tally) (offset : Nat) (r : Role) :
    (t.count offset r).depth = t.depth + r.weight := by
  cases r <;> simp [count, opened, closed, Role.weight, Int.sub_eq_add_neg]

@[simp] theorem lexer_count (t : Tally) (offset : Nat) (r : Role) :
    (t.count offset r).lexer = t.lexer := by
  cases r <;> rfl

@[simp] theorem lexer_read (t : Tally) (b : UInt8) (offset : Nat) :
    (t.read b offset).lexer = t.lexer.step b := lexer_count _ _ _

theorem depth_read (t : Tally) (b : UInt8) (offset : Nat) :
    (t.read b offset).depth = t.depth + (t.lexer.role b).weight := depth_count _ _ _

theorem hasRoom_start {n : Nat} (h : n ≤ maxOffset) : start.HasRoom n := by
  simp only [maxOffset] at h
  constructor
  · simp only [start, Lexer.start, Region.placeholderDepth, maxOffset]
    omega
  · simp only [start, minDepth]
    omega
  · simp only [start, maxDepth]
    omega

theorem HasRoom.read {n : Nat} (h : t.HasRoom (n + 1)) (b : UInt8) (offset : Nat) :
    (t.read b offset).HasRoom n := by
  obtain ⟨hp, hl, hu⟩ := h
  have hd := Lexer.placeholderDepth_step_le t.lexer b
  have hw := Role.weight_mem (t.lexer.role b)
  constructor <;> simp only [depth_read, lexer_read] <;> omega

theorem feed_eq_ok {n : Nat} (h : t.HasRoom (n + 1)) (b : UInt8) (offset : Nat) :
    t.feed b offset = .ok (t.lexer.role b, t.read b offset) := by
  have hf : t.lexer.feed b = .ok (t.lexer.role b, t.lexer.step b) :=
    Lexer.feed_eq_ok b (by have := h.placeholder; omega)
  obtain ⟨-, hl, hu⟩ := h.read b offset
  have hc : checkDepth (t.read b offset).depth = .ok (t.read b offset).depth :=
    checkDepth_of_mem (by omega) (by omega)
  simp only [feed, hf, bind, Except.bind]
  rw [← Tally.read, hc]
  rfl

@[simp] theorem readAll_nil (t : Tally) : t.readAll [] = t := rfl

@[simp] theorem readAll_cons (t : Tally) (b : UInt8) (offset : Nat) (bytes : List (UInt8 × Nat)) :
    t.readAll ((b, offset) :: bytes) = (t.read b offset).readAll bytes := rfl

theorem readAll_append (t : Tally) (u v : List (UInt8 × Nat)) :
    t.readAll (u ++ v) = (t.readAll u).readAll v := by
  simp [readAll]

theorem HasRoom.readAll {n : Nat} {bytes : List (UInt8 × Nat)}
    (h : t.HasRoom (bytes.length + n)) : (t.readAll bytes).HasRoom n := by
  induction bytes generalizing t with
  | nil => simpa using h
  | cons byte bytes ih =>
    have hb : t.HasRoom (bytes.length + n + 1) := by
      rwa [List.length_cons, Nat.add_right_comm] at h
    exact ih (hb.read byte.1 byte.2)

@[simp] theorem countAll_nil (t : Tally) : t.countAll [] = t := rfl

@[simp] theorem countAll_cons (t : Tally) (r : Role) (offset : Nat) (roles : List (Role × Nat)) :
    t.countAll ((r, offset) :: roles) = (t.count offset r).countAll roles := rfl

theorem countAll_append (t : Tally) (u v : List (Role × Nat)) :
    t.countAll (u ++ v) = (t.countAll u).countAll v := by
  simp [countAll]

/-- Counting leaves the lexer alone, and does not look at it. -/
theorem countAll_lexer (t : Tally) (l : Lexer) (roles : List (Role × Nat)) :
    { t with lexer := l }.countAll roles = { t.countAll roles with lexer := l } := by
  induction roles generalizing t with
  | nil => rfl
  | cons role roles ih =>
    have hc : ({ t with lexer := l } : Tally).count role.2 role.1 =
        { t.count role.2 role.1 with lexer := l } := by cases role.1 <;> rfl
    rw [countAll_cons, countAll_cons, hc, ih]

/-- A scan counts the roles the lexer gives to the bytes. -/
theorem readAll_zipIdx (t : Tally) (bytes : List UInt8) (offset : Nat) :
    t.readAll (bytes.zipIdx offset) =
      { t.countAll ((t.lexer.roles bytes).zipIdx offset) with lexer := t.lexer.after bytes } := by
  induction bytes generalizing t offset with
  | nil => rfl
  | cons b bytes ih =>
    rw [List.zipIdx_cons, readAll_cons, ih, Lexer.roles_cons, List.zipIdx_cons, countAll_cons]
    have hc : t.read b offset =
        { t.count offset (t.lexer.role b) with lexer := t.lexer.step b } := by
      rw [read]
      cases t.lexer.role b <;> rfl
    rw [hc, countAll_lexer]
    rfl

theorem depth_countAll (t : Tally) (roles : List Role) (offset : Nat) :
    (t.countAll (roles.zipIdx offset)).depth = t.depth + surplus roles := by
  induction roles generalizing t offset with
  | nil => simp
  | cons r roles ih =>
    rw [List.zipIdx_cons, countAll_cons, ih, depth_count, surplus_cons]
    omega

/-- The depth after a whole text is its surplus. -/
theorem depth_countAll_start (roles : List Role) :
    (start.countAll roles.zipIdx).depth = surplus roles :=
  (depth_countAll start roles 0).trans (Int.zero_add _)

theorem lexer_readAll (t : Tally) (bytes : List UInt8) (offset : Nat) :
    (t.readAll (bytes.zipIdx offset)).lexer = t.lexer.after bytes := by
  rw [readAll_zipIdx]

theorem depth_readAll_start (bytes : List UInt8) :
    (start.readAll bytes.zipIdx).depth = surplus (Lexer.start.roles bytes) := by
  rw [readAll_zipIdx]
  exact depth_countAll_start _

/-- The first negative offset is written once. -/
theorem firstNegative_countAll_of_eq_some {c : Nat} (h : t.firstNegative = some c)
    (roles : List (Role × Nat)) : (t.countAll roles).firstNegative = some c := by
  induction roles generalizing t with
  | nil => exact h
  | cons role roles ih =>
    obtain ⟨r, offset⟩ := role
    rw [countAll_cons]
    refine ih ?_
    cases r <;> simp [count, opened, closed, h]

/-- It is written when a prefix closes more braces than it opens. -/
theorem firstNegative_countAll_eq_none_iff (hd : 0 ≤ t.depth) (hf : t.firstNegative = none)
    (roles : List Role) (offset : Nat) :
    (t.countAll (roles.zipIdx offset)).firstNegative = none ↔
      ∀ j, 0 ≤ t.depth + surplus (roles.take j) := by
  induction roles generalizing t offset with
  | nil => simpa [hf] using hd
  | cons r roles ih =>
    have hall : (∀ j, 0 ≤ t.depth + surplus ((r :: roles).take j)) ↔
        ∀ j, 0 ≤ (t.count offset r).depth + surplus (roles.take j) := by
      rw [depth_count]
      constructor
      · intro h j
        have := h (j + 1)
        simp at this
        omega
      · intro h j
        cases j with
        | zero => simpa using hd
        | succ j =>
          have := h j
          simp
          omega
    rw [List.zipIdx_cons, countAll_cons, hall]
    by_cases hneg : (t.count offset r).depth < 0
    · have hw : r = .closeBrace := by
        rw [depth_count] at hneg
        cases r <;> simp [Role.weight] at hneg ⊢ <;> omega
      have hc : (t.count offset r).firstNegative = some offset := by
        subst hw
        have : t.depth - 1 < 0 := hneg
        simp [count, closed, hf, this]
      rw [firstNegative_countAll_of_eq_some hc]
      constructor
      · intro h
        cases h
      · intro h
        have hz := h 0
        rw [List.take_zero, surplus_nil, Int.add_zero] at hz
        omega
    · refine ih (by omega) ?_ _
      cases r with
      | closeBrace =>
        have : ¬ t.depth - 1 < 0 := hneg
        simp [count, closed, hf, this]
      | _ => exact hf

section

variable {stop : StopRule} {wasPositive : Bool} {b : UInt8} {offset : Nat}
  {bytes : List (UInt8 × Nat)}

/-- What a scan does at a byte: it stops there, or goes on and knows whether the depth was positive. -/
theorem scan_cons {role : Role} {next : Tally} (hf : t.feed b offset = .ok (role, next)) :
    t.scan stop wasPositive ((b, offset) :: bytes) =
      if stop = .balanced ∧ role = .closeBrace ∧ wasPositive = true ∧ next.depth = 0 then
        .ok (some offset, next)
      else
        next.scan stop (wasPositive || decide (role = .openBrace ∧ 0 < next.depth)) bytes := by
  rw [scan, hf]
  simp only [bind, Except.bind]
  cases role <;> simp

theorem scan_cons_of_fault {fault : Fault} (hf : t.feed b offset = .error fault) :
    t.scan stop wasPositive ((b, offset) :: bytes) = .error fault := by
  rw [scan, hf]
  rfl

end

/-- A scan to the end of the text reads all of it. -/
theorem scan_endOfText (wasPositive : Bool) (bytes : List (UInt8 × Nat))
    (h : t.HasRoom bytes.length) :
    t.scan .endOfText wasPositive bytes = .ok (none, t.readAll bytes) := by
  induction bytes generalizing t wasPositive with
  | nil => rfl
  | cons byte bytes ih =>
    obtain ⟨b, offset⟩ := byte
    rw [scan_cons (feed_eq_ok h b offset), if_neg (by simp)]
    exact ih _ (HasRoom.read h b offset)

theorem map_succ_map_add (index : Option Nat) (offset : Nat) :
    (index.map (· + 1)).map (offset + ·) = index.map (offset + 1 + ·) := by
  cases index <;> simp [Nat.add_comm, Nat.add_left_comm]

/-- A scan that waits for the balance goes on as long as the depth is not zero. -/
theorem scan_balanced_cons (b : UInt8) (offset : Nat) (bytes : List (UInt8 × Nat))
    (h : t.HasRoom (bytes.length + 1)) (hd : (t.read b offset).depth ≠ 0) :
    t.scan .balanced true ((b, offset) :: bytes) =
      (t.read b offset).scan .balanced true bytes := by
  rw [scan_cons (feed_eq_ok h b offset), if_neg fun hs => hd hs.2.2.2, Bool.true_or]

/-- A scan with `depth + 1` braces open stops where all of them are closed. -/
theorem scan_balanced (depth : Nat) (hd : t.depth = depth + 1) (bytes : List UInt8) (offset : Nat)
    (h : t.HasRoom bytes.length) :
    ∃ last, t.scan .balanced true (bytes.zipIdx offset) =
      .ok ((closingIndex depth (t.lexer.roles bytes)).map (offset + ·), last) := by
  induction bytes generalizing t depth offset with
  | nil => exact ⟨t, rfl⟩
  | cons b bytes ih =>
    have hn := depth_read t b offset
    rw [List.zipIdx_cons, Lexer.roles_cons]
    obtain ⟨hb, rfl⟩ | ⟨depth', hd', hc⟩ := closingIndex_cons depth (t.lexer.role b)
    · have hz : (t.read b offset).depth = 0 := by
        rw [hn, hb, hd]
        rfl
      refine ⟨t.read b offset, ?_⟩
      rw [scan_cons (feed_eq_ok h b offset), hb, if_pos ⟨rfl, rfl, rfl, hz⟩]
      simp [closingIndex]
    · have hp : (t.read b offset).depth = depth' + 1 := by omega
      obtain ⟨last, hs⟩ := ih depth' hp (offset + 1) (h.read b offset)
      refine ⟨last, ?_⟩
      rw [scan_balanced_cons b offset _ (by simpa using h) (by omega), hs, hc, map_succ_map_add,
        lexer_read]

end Tally

namespace Buffer

variable {bytes : List UInt8}

theorem scan_ofBytes (h : bytes.length ≤ maxOffset) {start : Nat} (hs : start ≤ bytes.length)
    (stop : StopRule) (t : Tally) :
    (ofBytes bytes).scan start stop t = t.scan stop false ((bytes.drop start).zipIdx start) :=
  bind_rest_ofBytes h hs _

theorem balance_ofBytes (h : bytes.length ≤ maxOffset) :
    (ofBytes bytes).balance = .ok (.ofTally (Tally.start.readAll bytes.zipIdx)) := by
  have hr : Tally.start.HasRoom bytes.zipIdx.length := by
    simpa using Tally.hasRoom_start h
  rw [balance, scan_ofBytes h (Nat.zero_le _), List.drop_zero, Tally.scan_endOfText false _ hr]
  rfl

/-- The scan of a whole text counts the roles of its bytes. -/
theorem balance_eq_ofTally_countAll (h : bytes.length ≤ maxOffset) :
    (ofBytes bytes).balance = .ok (.ofTally
      { Tally.start.countAll (Lexer.start.roles bytes).zipIdx with
        lexer := Lexer.start.after bytes }) := by
  rw [balance_ofBytes h, Tally.readAll_zipIdx]
  rfl

end Buffer

end BraceBalance
