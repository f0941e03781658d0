import Mathlib.Data.List.Forall2
import BraceBalance.Rendering
import BraceBalance.Proofs.LineTexts

/-!
# Spots

An offset between two characters of a text has a line and a column, and the line it is on can be shown:
lines start and stop beside a newline, which is a character of its own, so a line is a text. It takes
two offsets to spare, as the table looks for the line after the one it shows.
-/

namespace BraceBalance

/-- Nothing in a list fails if nothing fails. -/
theorem exists_mapM {α β : Type} {f : α → Except Fault β} {R : α → β → Prop} {xs : List α}
    (h : ∀ x ∈ xs, ∃ y, f x = .ok y ∧ R x y) :
    ∃ ys, xs.mapM f = .ok ys ∧ List.Forall₂ R xs ys := by
  induction xs with
  | nil => exact ⟨[], rfl, .nil⟩
  | cons x xs ih =>
    obtain ⟨y, hy, hr⟩ := h x List.mem_cons_self
    obtain ⟨ys, hys, hrs⟩ := ih fun x hx => h x (List.mem_cons_of_mem _ hx)
    exact ⟨y :: ys, by simp [hy, hys, bind, Except.bind, pure, Except.pure], .cons hr hrs⟩

namespace Source

variable {text : String}

/-- An offset between two characters of the text, its place, and the line it is on. -/
structure Shows (s : Source) (offset : Nat) (p : Position) (line : String) : Prop where
  le_length : offset ≤ (Text.bytes s.text).length
  boundary : Text.IsBoundary s.text offset
  position : s.position offset = .ok (some p)
  lineText : s.lineText p.line = .ok (some line)

theorem spot_eq {s : Source} {offset : Nat} {p : Position} {line : String}
    (hp : s.position offset = .ok (some p)) (hl : s.lineText p.line = .ok (some line)) :
    s.spot offset = .ok (some (p, some line)) := by
  rw [spot, hp]
  simp only [bind, Except.bind, hl]
  rfl

theorem Shows.spot {s : Source} {offset : Nat} {p : Position} {line : String}
    (h : s.Shows offset p line) : s.spot offset = .ok (some (p, some line)) :=
  spot_eq h.position h.lineText

/-- Every offset of a text that has two offsets to spare has a place, and the line there can be shown. -/
theorem exists_place (path : String) (h : (Text.bytes text).length + 2 ≤ maxOffset) {offset : Nat}
    (hle : offset ≤ (Text.bytes text).length) :
    ∃ p line, (ofText path text).position offset = .ok (some p) ∧
      (ofText path text).lineText p.line = .ok (some line) := by
  have hp : (ofText path text).position offset = .ok (Position.find (Text.bytes text) offset) :=
    LineTable.position_ofBytes (by omega) offset
  cases hfind : Position.find (Text.bytes text) offset with
  | none => exact absurd (Position.find_eq_none_iff.mp hfind) (Nat.not_lt.mpr hle)
  | some p =>
    rw [hfind] at hp
    have hline := (Position.places_of_find (by omega) hfind).line
    have hcount : ((Text.bytes text).take offset).count Byte.newline ≤
        (Text.bytes text).count Byte.newline := (List.take_sublist _ _).count_le _
    have hlength : (Text.bytes text).count Byte.newline ≤ (Text.bytes text).length :=
      List.count_le_length
    obtain ⟨line, hl⟩ := exists_lineText_succ path (by omega) hcount (by omega)
    refine ⟨p, line, hp, ?_⟩
    rw [hline, Nat.add_comm]
    exact hl

/-- Every offset between two characters of such a text. -/
theorem exists_shows (path : String) (h : (Text.bytes text).length + 2 ≤ maxOffset) {offset : Nat}
    (hb : Text.IsBoundary text offset) : ∃ p line, (ofText path text).Shows offset p line := by
  obtain ⟨p, line, hp, hl⟩ := exists_place path h hb.le_length
  exact ⟨p, line, hb.le_length, hb, hp, hl⟩

/-- Of such a text any offset can be asked for: one beyond the end has no spot. -/
theorem exists_spot (path : String) (h : (Text.bytes text).length + 2 ≤ maxOffset) (offset : Nat) :
    ∃ spot, (ofText path text).spot offset = .ok spot := by
  rcases Nat.lt_or_ge (Text.bytes text).length offset with hlt | hle
  · have hp : (ofText path text).position offset = .ok none :=
      LineTable.position_eq_none (by omega) hlt
    exact ⟨none, by rw [spot, hp]; rfl⟩
  · obtain ⟨p, line, hp, hl⟩ := exists_place path h hle
    exact ⟨some (p, some line), spot_eq hp hl⟩

end Source

namespace Rendering

/-- The pieces of a diagnostic with its line, its column and the line of text it points at. -/
def Placed (colors : Bool) (source : Source) (d : Diagnostic) (pieces : List String) : Prop :=
  ∃ p line, source.Shows d.offset p line ∧ pieces = atSpot colors source.path (some (p, some line)) d

variable {text : String}

theorem exists_placed (colors : Bool) (path : String)
    (h : (Text.bytes text).length + 2 ≤ maxOffset) {d : Diagnostic}
    (hb : Text.IsBoundary text d.offset) :
    ∃ pieces, diagnostic colors (Source.ofText path text) d = .ok pieces ∧
      Placed colors (Source.ofText path text) d pieces := by
  obtain ⟨p, line, hs⟩ := Source.exists_shows path h hb
  refine ⟨_, ?_, p, line, hs, rfl⟩
  rw [diagnostic, hs.spot]
  rfl

theorem exists_forall₂_placed (colors : Bool) (path : String)
    (h : (Text.bytes text).length + 2 ≤ maxOffset) {ds : List Diagnostic}
    (hb : ∀ d ∈ ds, Text.IsBoundary text d.offset) :
    ∃ pieces, diagnostics colors (Source.ofText path text) ds = .ok pieces.flatten ∧
      List.Forall₂ (Placed colors (Source.ofText path text)) ds pieces := by
  obtain ⟨pieces, hmap, hplaced⟩ := exists_mapM fun d hd => exists_placed colors path h (hb d hd)
  exact ⟨pieces, by rw [diagnostics, hmap]; rfl, hplaced⟩

theorem diagnostics_singleton {colors : Bool} {source : Source} {d : Diagnostic}
    {pieces : List String} (h : diagnostic colors source d = .ok pieces) :
    diagnostics colors source [d] = .ok pieces := by
  rw [diagnostics, List.mapM_cons, h]
  exact congrArg _ (List.append_nil pieces)

end Rendering

end BraceBalance
