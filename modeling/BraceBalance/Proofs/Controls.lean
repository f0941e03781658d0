import Mathlib.Tactic.SplitIfs
import BraceBalance.Findings
import BraceBalance.Position
import BraceBalance.Proofs.Boundaries

/-!
# Texts without controls

Numbers, places, the names of regions and quoted text have no character below the space: no tab, no
line end and no escape. Nor have the messages made of them.
-/

namespace BraceBalance

namespace Text

/-- No character of the text is below the space. -/
def NoControls (s : String) : Prop := ∀ c ∈ s.toList, 0x20 ≤ c.toNat

-- Named here because the instance for types with finitely many values would try every character.
instance (s : String) : Decidable (NoControls s) :=
  List.decidableBAll (fun c : Char => 0x20 ≤ c.toNat) s.toList

variable {s t : String}

@[simp] theorem noControls_append : NoControls (s ++ t) ↔ NoControls s ∧ NoControls t := by
  simp only [NoControls, String.toList_append, List.forall_mem_append]

theorem NoControls.append (hs : NoControls s) (ht : NoControls t) : NoControls (s ++ t) :=
  noControls_append.mpr ⟨hs, ht⟩

@[simp] theorem noControls_ofList {cs : List Char} :
    NoControls (String.ofList cs) ↔ ∀ c ∈ cs, 0x20 ≤ c.toNat := by
  rw [NoControls, String.toList_ofList]

theorem NoControls.le_of_mem_bytes (h : NoControls s) {b : UInt8} (hb : b ∈ bytes s) :
    0x20 ≤ b.toNat := by
  obtain ⟨c, hc, hb⟩ := List.mem_flatMap.mp hb
  rcases Nat.lt_or_ge c.toNat 0x80 with hlt | hge
  · rw [utf8EncodeChar_of_lt hlt, List.mem_singleton] at hb
    rw [hb, UInt8.toNat_ofNat', Nat.mod_eq_of_lt (by omega)]
    exact h c hc
  · exact Nat.le_trans (by decide) (le_toNat_of_mem_utf8EncodeChar hge hb)

theorem NoControls.not_mem_bytes (h : NoControls s) {b : UInt8} (hb : b.toNat < 0x20) :
    b ∉ bytes s :=
  fun hm => Nat.not_le.mpr hb (h.le_of_mem_bytes hm)

theorem le_digitChar : ∀ n < 16, 0x20 ≤ (Nat.digitChar n).toNat := by
  decide

theorem le_of_mem_toDigits {b n : Nat} (hb : 1 < b) (hmax : b ≤ 16) {c : Char}
    (hc : c ∈ Nat.toDigits b n) : 0x20 ≤ c.toNat := by
  induction n using Nat.strongRecOn with
  | _ n ih =>
    rw [Nat.toDigits_eq_if hb] at hc
    split at hc
    case isTrue hn =>
      rw [List.mem_singleton.mp hc]
      exact le_digitChar n (by omega)
    case isFalse hn =>
      obtain hc | hc := List.mem_append.mp hc
      · exact ih (n / b) (Nat.div_lt_self (by omega) hb) hc
      · have := Nat.mod_lt n (Nat.zero_lt_of_lt hb)
        rw [List.mem_singleton.mp hc]
        exact le_digitChar (n % b) (by omega)

@[simp] theorem noControls_natRepr (n : Nat) : NoControls n.repr := by
  intro c hc
  rw [Nat.toList_repr] at hc
  exact le_of_mem_toDigits (by decide) (by decide) hc

@[simp] theorem noControls_intRepr (z : Int) : NoControls z.repr := by
  cases z with
  | ofNat n => exact noControls_natRepr n
  | negSucc n => exact .append (by decide) (noControls_natRepr (n + 1))

theorem inRanges_of_mem {n lo hi : Nat} (hlo : lo ≤ n) (hhi : n ≤ hi) (rest : List (Nat × Nat)) :
    inRanges n ((lo, hi) :: rest) = true := by
  simp [inRanges, hlo, hhi]

theorem le_of_isPrintable {c : Char} (h : isPrintable c = true) : 0x20 ≤ c.toNat := by
  refine Nat.le_of_not_lt fun hlt => ?_
  rw [isPrintable, unprintableRanges, inRanges_of_mem (Nat.zero_le _) (Nat.le_of_lt_succ hlt)] at h
  cases h

namespace Quoted

theorem noControls_codePoint (c : Char) : NoControls (codePoint c) :=
  .append (.append (by decide)
    (noControls_ofList.mpr fun _ => le_of_mem_toDigits (by decide) (by decide))) (by decide)

theorem noControls_escape {delimiter : Char} (h : 0x20 ≤ delimiter.toNat) (c : Char) :
    NoControls (escape delimiter c) := by
  unfold escape
  split_ifs with _ _ _ _ _ hdelimiter _ hprintable
  · decide
  · decide
  · decide
  · decide
  · decide
  · rw [noControls_ofList, hdelimiter]
    simpa using h
  · exact noControls_codePoint c
  · rw [noControls_ofList]
    simpa using le_of_isPrintable hprintable
  · exact noControls_codePoint c

/-- Quoted text stays on its line and in its column. -/
theorem noControls_text (cs : List Char) : NoControls (text cs) := by
  have hjoin : NoControls (String.join (cs.map (escape '\x22'))) := by
    intro c hc
    rw [String.toList_join, List.mem_flatMap] at hc
    obtain ⟨_, hmem, hc⟩ := hc
    obtain ⟨d, -, rfl⟩ := List.mem_map.mp hmem
    exact noControls_escape (by decide) d c hc
  exact .append (.append (by decide) hjoin) (by decide)

theorem noControls_char (c : Char) : NoControls (char c) :=
  .append (.append (by decide) (noControls_escape (by decide) c)) (by decide)

end Quoted

end Text

theorem Position.noControls_text (p : Position) : Text.NoControls p.text := by
  simp +decide [text]

theorem Region.noControls_name (r : Region) : Text.NoControls r.name := by
  cases r with
  | quoted q => cases q <;> decide
  | code => decide
  | lineComment => decide
  | blockComment => decide
  | template depth =>
    cases depth with
    | zero => decide
    | succ depth => exact (by decide : Text.NoControls "template placeholder")

/-- What a diagnostic says in words. -/
def Diagnostic.texts (d : Diagnostic) : List String := d.message :: d.notes

theorem EncodingIssue.noControls_finding (i : EncodingIssue) :
    ∀ t ∈ i.finding.texts, Text.NoControls t := by
  simp only [finding, Diagnostic.texts, List.forall_mem_singleton]
  cases i.kind <;> decide

theorem Balance.noControls_of_mem_findings {r : Balance} {length : Nat} {d : Diagnostic}
    (h : d ∈ r.findings length) : ∀ t ∈ d.texts, Text.NoControls t := by
  rw [findings, List.mem_append, List.mem_append] at h
  obtain (hstray | hopen) | hend := h
  · obtain ⟨offset, -, rfl⟩ := Option.map_eq_some_iff.mp (Option.mem_toList.mp hstray)
    simp only [unmatchedFinding, Diagnostic.texts, List.forall_mem_cons]
    split <;> simp +decide
  · obtain ⟨offset, -, rfl⟩ := List.mem_map.mp hopen
    simp +decide [unclosedFinding, Diagnostic.texts]
  · split at hend
    · obtain rfl := List.mem_singleton.mp hend
      simp +decide [openAtEndFinding, Diagnostic.texts, Region.noControls_name]
    · cases hend

theorem AnchorError.noControls_message (e : AnchorError) : Text.NoControls e.message := by
  have hnumber {before after : String} (n : Nat) (hbefore : Text.NoControls before)
      (hafter : Text.NoControls after) : Text.NoControls (before ++ n.repr ++ after) :=
    (hbefore.append (Text.noControls_natRepr n)).append hafter
  cases e with
  | outOfBounds offset length =>
    exact hnumber length (hnumber offset (by decide) (by decide)) (by decide)
  | notOpenBrace offset c =>
    exact ((hnumber offset (by decide) (by decide)).append (Text.Quoted.noControls_char c)).append
      (by decide)
  | notStructural offset region =>
    exact ((hnumber offset (by decide) (by decide)).append region.noControls_name).append (by decide)

end BraceBalance
