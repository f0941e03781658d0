import BraceBalance.Construct
import BraceBalance.Proofs.Bodies
import BraceBalance.Proofs.Spans

/-!
# Constructs

What a search for a named construct answers, said without the search: from the first occurrence of
the name, the first brace after it, and the role of that brace in the whole text. The search finds
both places, so the check of the anchor never sees an offset outside the text or a byte that is no
brace, and the braces it refuses are those outside code.
-/

namespace BraceBalance

/-- The least number with a property, or none if no number has it. -/
def FirstOf (p : Nat → Prop) : Option Nat → Prop
  | some n => p n ∧ ∀ m < n, ¬ p m
  | none => ∀ n, ¬ p n

theorem FirstOf.unique {p : Nat → Prop} {o o' : Option Nat} (h : FirstOf p o) (h' : FirstOf p o') :
    o = o' := by
  cases o with
  | none =>
    cases o' with
    | none => rfl
    | some n => exact absurd h'.1 (h n)
  | some m =>
    cases o' with
    | none => exact absurd h.1 (h' m)
    | some n =>
      have hmn : ¬ n < m := fun hlt => h.2 n hlt h'.1
      have hnm : ¬ m < n := fun hlt => h'.2 m hlt h.1
      rw [show m = n by omega]

theorem FirstOf.zero {p : Nat → Prop} (h : p 0) : FirstOf p (some 0) := ⟨h, nofun⟩

/-- A number that does not have the property is passed over. -/
theorem FirstOf.succ {p : Nat → Prop} {o : Option Nat} (hz : ¬ p 0)
    (h : FirstOf (fun i => p (i + 1)) o) : FirstOf p (o.map (· + 1)) := by
  cases o with
  | none =>
    intro n
    cases n with
    | zero => exact hz
    | succ n => exact h n
  | some n =>
    refine ⟨h.1, fun m hm => ?_⟩
    cases m with
    | zero => exact hz
    | succ m => exact h.2 m (Nat.lt_of_succ_lt_succ hm)

/-- The name stands in the bytes at offset `n`. -/
def OccursAt (name bytes : List UInt8) (n : Nat) : Prop := n ≤ bytes.length ∧ name <+: bytes.drop n

/-- An opening brace stands at `a`, and not before `start`. -/
def BraceFrom (bytes : List UInt8) (start a : Nat) : Prop :=
  start ≤ a ∧ bytes[a]? = some Byte.openBrace

section

variable {name bytes : List UInt8}

theorem exists_occursAt_iff : (∃ n, OccursAt name bytes n) ↔ name <:+: bytes := by
  constructor
  · rintro ⟨n, -, hn⟩
    exact hn.isInfix.trans (List.drop_suffix n bytes).isInfix
  · rintro ⟨before, after, rfl⟩
    refine ⟨before.length, ?_, after, ?_⟩
    · simp only [List.length_append]
      omega
    · rw [List.append_assoc, List.drop_left]

theorem exists_firstOccurrence (name bytes : List UInt8) (pos : Nat) :
    ∃ o, firstOccurrence name bytes pos = o.map (pos + ·) ∧ FirstOf (OccursAt name bytes) o := by
  induction bytes generalizing pos with
  | nil =>
    cases name with
    | nil => exact ⟨some 0, rfl, .zero ⟨Nat.le_refl _, List.nil_prefix⟩⟩
    | cons b name =>
      refine ⟨none, rfl, fun n hn => ?_⟩
      have hp := hn.2
      simp at hp
  | cons b bytes ih =>
    by_cases hp : name <+: b :: bytes
    · refine ⟨some 0, ?_, .zero ⟨Nat.zero_le _, hp⟩⟩
      rw [firstOccurrence, if_pos (List.isPrefixOf_iff_prefix.mpr hp)]
      rfl
    · obtain ⟨o, ho, hfirst⟩ := ih (pos + 1)
      have hz : ¬ OccursAt name (b :: bytes) 0 := fun h => hp h.2
      have hsucc : (fun n => OccursAt name (b :: bytes) (n + 1)) = OccursAt name bytes := by
        funext n
        simp [OccursAt]
      refine ⟨o.map (· + 1), ?_, .succ hz (hsucc ▸ hfirst)⟩
      rw [firstOccurrence, if_neg fun h => hp (List.isPrefixOf_iff_prefix.mp h), ho]
      cases o <;> simp [Nat.add_assoc, Nat.add_comm 1]

theorem firstOf_firstOccurrence (name bytes : List UInt8) :
    FirstOf (OccursAt name bytes) (firstOccurrence name bytes 0) := by
  obtain ⟨o, ho, hfirst⟩ := exists_firstOccurrence name bytes 0
  rw [ho]
  cases o with
  | none => exact hfirst
  | some n => simpa using hfirst

theorem firstOf_findIdx? (bytes : List UInt8) (start : Nat) :
    FirstOf (BraceFrom bytes start)
      (((bytes.drop start).findIdx? (· == Byte.openBrace)).map (start + ·)) := by
  cases hf : (bytes.drop start).findIdx? (· == Byte.openBrace) with
  | none =>
    rintro a ⟨hle, ha⟩
    obtain ⟨i, rfl⟩ := Nat.exists_eq_add_of_le hle
    rw [← List.getElem?_drop] at ha
    have hno := List.findIdx?_eq_none_iff.mp hf _ (List.mem_of_getElem? ha)
    simp at hno
  | some i =>
    obtain ⟨hlt, hbrace, hno⟩ := List.findIdx?_eq_some_iff_getElem.mp hf
    refine ⟨⟨Nat.le_add_right _ _, ?_⟩, ?_⟩
    · rw [← List.getElem?_drop, List.getElem?_eq_getElem hlt, beq_iff_eq.mp hbrace]
    · rintro m hm ⟨hle, hb⟩
      obtain ⟨j, rfl⟩ := Nat.exists_eq_add_of_le hle
      have hj : j < i := Nat.lt_of_add_lt_add_left hm
      rw [← List.getElem?_drop, List.getElem?_eq_getElem (Nat.lt_trans hj hlt)] at hb
      exact hno j hj (beq_iff_eq.mpr (Option.some.inj hb))

/-- In a text of admissible length no occurrence is too far on for an offset. -/
theorem findName_eq (h : bytes.length ≤ maxOffset) (name : List UInt8) :
    findName name bytes = firstOccurrence name bytes 0 := by
  have hfirst := firstOf_firstOccurrence name bytes
  rw [findName]
  cases ho : firstOccurrence name bytes 0 with
  | none => rfl
  | some n =>
    rw [ho] at hfirst
    exact offset?_of_le (Nat.le_trans hfirst.1.1 h)

/-- Nor is a brace. -/
theorem findBrace_eq (h : bytes.length ≤ maxOffset) (start : Nat) :
    findBrace bytes start =
      ((bytes.drop start).findIdx? (· == Byte.openBrace)).map (start + ·) := by
  have hfirst := firstOf_findIdx? bytes start
  rw [findBrace]
  cases ho : (bytes.drop start).findIdx? (· == Byte.openBrace) with
  | none => rfl
  | some i =>
    rw [ho] at hfirst
    have hlt : start + i < bytes.length := (List.getElem?_eq_some_iff.mp hfirst.1.2).1
    exact offset?_of_le (by omega)

theorem firstOf_findName (h : bytes.length ≤ maxOffset) (name : List UInt8) :
    FirstOf (OccursAt name bytes) (findName name bytes) := by
  rw [findName_eq h]
  exact firstOf_firstOccurrence name bytes

theorem firstOf_findBrace (h : bytes.length ≤ maxOffset) (start : Nat) :
    FirstOf (BraceFrom bytes start) (findBrace bytes start) := by
  rw [findBrace_eq h]
  exact firstOf_findIdx? bytes start

theorem role_getElem?_labels (bytes : List UInt8) (n : Nat) :
    (Lexer.start.labels bytes 0)[n]?.map Label.role = (Lexer.start.roles bytes)[n]? := by
  rw [Lexer.getElem?_labels, Lexer.getElem?_roles, Option.map_map]
  rfl

end

namespace Construct

/-- What a search for a name in a text answers, and where the body would open. -/
inductive Answers (text name : String) : Except ConstructError Construct → Option Nat → Prop where
  | nameNotFound : ¬ Text.bytes name <:+: Text.bytes text →
      Answers text name (.error (.nameNotFound name)) none
  | noOpeningBrace {n : Nat} :
      FirstOf (OccursAt (Text.bytes name) (Text.bytes text)) (some n) →
      FirstOf (BraceFrom (Text.bytes text) (n + (Text.bytes name).length)) none →
      Answers text name (.error (.noOpeningBrace name n)) none
  | found {n a : Nat} {closing : Option Nat} {labels : List Label} :
      FirstOf (OccursAt (Text.bytes name) (Text.bytes text)) (some n) →
      FirstOf (BraceFrom (Text.bytes text) (n + (Text.bytes name).length)) (some a) →
      (Buffer.ofText text).classify 0 = .ok labels →
      labels[a]?.map Label.role = some .openBrace →
      (Buffer.ofText text).bodyAt a = .ok (.ok ⟨a, closing⟩) →
      Answers text name (.ok ⟨n, a, closing⟩) (some a)
  | notStructural {n a : Nat} {labels : List Label} {before : Lexer} :
      FirstOf (OccursAt (Text.bytes name) (Text.bytes text)) (some n) →
      FirstOf (BraceFrom (Text.bytes text) (n + (Text.bytes name).length)) (some a) →
      (Buffer.ofText text).classify 0 = .ok labels →
      labels[a]?.map Label.role ≠ some .openBrace →
      Lexer.start.run ((Text.bytes text).take a) = .ok before → before.region ≠ .code →
      Answers text name (.error (.anchor (.notStructural a before.region))) (some a)

variable {text name : String} {n a : Nat}

theorem locate_of_not_occurs (h : (Text.bytes text).length ≤ maxOffset)
    (hno : ¬ Text.bytes name <:+: Text.bytes text) :
    locate text name = .error (.nameNotFound name) := by
  have hnone : FirstOf (OccursAt (Text.bytes name) (Text.bytes text)) none :=
    fun n hn => hno (exists_occursAt_iff.mp ⟨n, hn⟩)
  simp only [locate, (firstOf_findName h _).unique hnone]

theorem locate_of_noBrace (h : (Text.bytes text).length ≤ maxOffset)
    (hn : FirstOf (OccursAt (Text.bytes name) (Text.bytes text)) (some n))
    (ha : FirstOf (BraceFrom (Text.bytes text) (n + (Text.bytes name).length)) none) :
    locate text name = .error (.noOpeningBrace name n) := by
  simp only [locate, (firstOf_findName h _).unique hn, (firstOf_findBrace h _).unique ha]

theorem locate_of_brace (h : (Text.bytes text).length ≤ maxOffset)
    (hn : FirstOf (OccursAt (Text.bytes name) (Text.bytes text)) (some n))
    (ha : FirstOf (BraceFrom (Text.bytes text) (n + (Text.bytes name).length)) (some a)) :
    locate text name = .ok (n, a) := by
  simp only [locate, (firstOf_findName h _).unique hn, (firstOf_findBrace h _).unique ha]

theorem classify_ofText (h : (Text.bytes text).length ≤ maxOffset) :
    (Buffer.ofText text).classify 0 = .ok (Lexer.start.labels (Text.bytes text) 0) :=
  Buffer.classify_ofBytes h (Nat.zero_le _)

theorem role_of_classify (h : (Text.bytes text).length ≤ maxOffset) {labels : List Label}
    (hl : (Buffer.ofText text).classify 0 = .ok labels) (a : Nat) :
    labels[a]?.map Label.role = (Lexer.start.roles (Text.bytes text))[a]? := by
  rw [classify_ofText h] at hl
  obtain rfl := Except.ok.inj hl
  exact role_getElem?_labels _ a

/-- A search answers what it has to, and nothing else. -/
theorem Answers.find_eq (h : (Text.bytes text).length ≤ maxOffset)
    {answer : Except ConstructError Construct} {place : Option Nat}
    (ha : Answers text name answer place) :
    find text name = .ok answer ∧ anchor? text name = place := by
  cases ha with
  | nameNotFound hn =>
    rw [find, anchor?, locate_of_not_occurs h hn]
    exact ⟨rfl, rfl⟩
  | noOpeningBrace hn ha =>
    rw [find, anchor?, locate_of_noBrace h hn ha]
    exact ⟨rfl, rfl⟩
  | found hn ha hl hr hb =>
    rw [find, anchor?, locate_of_brace h hn ha]
    simp only [hb, bind, Except.bind]
    exact ⟨rfl, rfl⟩
  | notStructural hn ha hl hr hrun hcode =>
    rw [role_of_classify h hl] at hr
    obtain rfl := Lexer.eq_after_of_run hrun
    have hb := (Buffer.bodyAt_eq_notStructural_iff h).mpr ⟨rfl, ha.1.2, hr, rfl⟩
    rw [find, anchor?, locate_of_brace h hn ha]
    simp only [Buffer.ofText, hb, bind, Except.bind]
    exact ⟨rfl, rfl⟩

/-- Every search comes to an end in one of four ways. -/
theorem exists_answers (h : (Text.bytes text).length ≤ maxOffset) (name : String) :
    ∃ answer place, Answers text name answer place := by
  have hname := firstOf_findName h (Text.bytes name)
  cases hn : findName (Text.bytes name) (Text.bytes text) with
  | none =>
    rw [hn] at hname
    refine ⟨_, _, .nameNotFound fun hi => ?_⟩
    obtain ⟨n, hoccurs⟩ := exists_occursAt_iff.mpr hi
    exact hname n hoccurs
  | some n =>
    rw [hn] at hname
    have hbrace := firstOf_findBrace h (n + (Text.bytes name).length)
    cases ha : findBrace (Text.bytes text) (n + (Text.bytes name).length) with
    | none =>
      rw [ha] at hbrace
      exact ⟨_, _, .noOpeningBrace hname hbrace⟩
    | some a =>
      rw [ha] at hbrace
      have hl := classify_ofText h
      by_cases hr : (Lexer.start.roles (Text.bytes text))[a]? = some .openBrace
      · exact ⟨_, _, .found hname hbrace hl ((role_of_classify h hl a).trans hr)
          (Buffer.bodyAt_of_role h hr)⟩
      · refine ⟨_, _, .notStructural hname hbrace hl ?_
          (Lexer.start_run (by rw [List.length_take]; omega))
          (Lexer.region_ne_code_of_role_ne hbrace.1.2 hr)⟩
        rwa [role_of_classify h hl a]

/-- A search for a name decides by its first occurrence, the first brace after it, and the role of
that brace in the whole text; no two answers are right. If it refuses the brace, that is because the
brace does not count: it lies in the text, and it is a brace. -/
theorem find_decides (text name : String) (h : (Text.bytes text).length ≤ maxOffset) :
    ∃ answer, find text name = .ok answer ∧ Answers text name answer (anchor? text name) ∧
      (∀ other place, Answers text name other place →
        other = answer ∧ place = anchor? text name) ∧
      ∀ e, answer = .error (.anchor e) → ∃ offset region, e = .notStructural offset region := by
  obtain ⟨answer, place, ha⟩ := exists_answers h name
  obtain ⟨hfind, rfl⟩ := ha.find_eq h
  refine ⟨answer, hfind, ha, ?_, ?_⟩
  · intro other place ho
    obtain ⟨hother, rfl⟩ := ho.find_eq h
    exact ⟨Except.ok.inj (hother.symm.trans hfind), rfl⟩
  · rintro e rfl
    generalize anchor? text name = place at ha
    cases ha with
    | notStructural => exact ⟨_, _, rfl⟩

/-- The first brace after the name stands in a template literal. -/
theorem answers_of_template :
    Answers "`a\x7b` a\x7b\x7d" "a" (.error (.anchor (.notStructural 2 (.template 0)))) (some 2) := by
  obtain ⟨answer, hf, ha, -⟩ := find_decides "`a\x7b` a\x7b\x7d" "a" (by decide)
  obtain rfl : .error (.anchor (.notStructural 2 (.template 0))) = answer := Except.ok.inj hf
  exact ha

end Construct

end BraceBalance
