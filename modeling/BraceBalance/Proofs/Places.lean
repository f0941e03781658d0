import BraceBalance.Report.Construct
import BraceBalance.Report.Spans
import BraceBalance.Proofs.Checking
import BraceBalance.Proofs.Constructs
import BraceBalance.Proofs.Edges

/-!
# Places

Every offset in a report stands between two characters of the text: braces and null bytes are
characters of their own, a name is found only where a character begins, and spans meet beside a byte
below 0x80. So no report has to do without a place or a line, and none has an empty span.
-/

namespace BraceBalance

section

variable {text : String}

theorem Text.isBoundary_of_occursAt {name : String} {n : Nat}
    (h : FirstOf (OccursAt (bytes name) (bytes text)) (some n)) : IsBoundary text n := by
  by_cases hname : bytes name = []
  · have hz : OccursAt (bytes name) (bytes text) 0 := by
      rw [hname]
      exact ⟨Nat.zero_le _, List.nil_prefix⟩
    obtain rfl : n = 0 := Nat.eq_zero_of_not_pos fun hpos => h.2 0 hpos hz
    exact isBoundary_zero text
  · exact isBoundary_of_prefix hname h.1.2

end

namespace CheckReport

variable {text : String}

/-- A check with a place for the first unmatched brace, and a place and a line for each of its
diagnostics. -/
structure Places (colors : Bool) (source : Source) (checked : CheckedText) : Prop where
  firstNegative : ∀ offset, checked.balance.firstNegative = some offset →
    ∃ p line, source.Shows offset p line ∧ checked.firstNegativeAt = some p
  rendered : ∃ pieces, List.Forall₂ (Rendering.Placed colors source) checked.diagnostics pieces ∧
    checked.rendered = String.join (Rendering.line
      (headline source.path checked.balance checked.firstNegativeAt) ++ pieces.flatten)

theorem exists_places (colors : Bool) (path : String)
    (h : (Text.bytes text).length + 2 ≤ maxOffset) :
    ∃ checked, ofText colors path text = .ok checked ∧
      Places colors (Source.ofText path text) checked := by
  have hmax : (Text.bytes text).length ≤ maxOffset := by omega
  obtain ⟨r, hb, hfirst, -⟩ := exists_findings hmax
  obtain ⟨pieces, hplaced, hcheck⟩ := exists_ofText_placed colors path h hb
  refine ⟨_, hcheck, ?_, pieces, hplaced, rfl⟩
  intro offset ho
  obtain ⟨p, line, hs⟩ := Source.exists_shows path h
    (isBoundary_of_mem_strays (List.mem_of_head? (hfirst ▸ ho)))
  have hp : (Source.ofText path text).position offset = _ :=
    LineTable.position_ofBytes (by omega) offset
  refine ⟨p, line, hs, ?_⟩
  simp only [show r.firstNegative = some offset from ho]
  exact Except.ok.inj (hp.symm.trans hs.position)

end CheckReport

namespace ConstructReport

/-- What is reported on a name, by what the search for it answers. -/
inductive Reports (colors : Bool) (source : Source) (name : String) :
    Except ConstructError Construct → List String → Prop where
  | closes {n a c : Nat} {opening closing : Position} {first last : String} :
      source.Shows a opening first → source.Shows c closing last →
      Reports colors source name (.ok ⟨n, a, some c⟩) (Rendering.line (source.path ++ ": `" ++ name ++
        "` opens at " ++ opening.text ++ ", closes at " ++ closing.text))
  | neverCloses {n a : Nat} {opening : Position} {first : String} {d : Diagnostic}
      {pieces : List String} :
      source.Shows a opening first → Construct.finding? ⟨n, a, none⟩ name = some d →
      Rendering.Placed colors source d pieces →
      Reports colors source name (.ok ⟨n, a, none⟩) (Rendering.line (source.path ++ ": `" ++ name ++
        "` opens at " ++ opening.text ++ ", never closes") ++ pieces)
  | refused {e : ConstructError} {d : Diagnostic} {pieces : List String} :
      e.finding? = some d → Rendering.Placed colors source d pieces →
      Reports colors source name (.error e)
        (Rendering.line (source.path ++ ": `" ++ name ++ "` could not be scanned") ++ pieces)
  /-- The name does not occur, and the report has no offset. -/
  | missing : Reports colors source name (.error (.nameNotFound name))
      (Rendering.line (source.path ++ ": " ++ (ConstructError.nameNotFound name).message))

variable {text name : String}

theorem placeText_of_shows {s : Source} {offset : Nat} {p : Position} {line : String}
    (h : s.Shows offset p line) : placeText s offset = .ok p.text := by
  rw [placeText, h.position]
  rfl

theorem exists_found (colors : Bool) (path : String) (h : (Text.bytes text).length + 2 ≤ maxOffset)
    {n a : Nat} {closing : Option Nat} (ha : Text.IsBoundary text a)
    (hc : ∀ c, closing = some c → Text.IsBoundary text c) :
    ∃ pieces, found colors (Source.ofText path text) name ⟨n, a, closing⟩ = .ok pieces ∧
      Reports colors (Source.ofText path text) name (.ok ⟨n, a, closing⟩) pieces := by
  obtain ⟨opening, first, hopening⟩ := Source.exists_shows path h ha
  rw [found, placeText_of_shows hopening]
  simp only [bind, Except.bind]
  cases closing with
  | some c =>
    obtain ⟨closing, last, hclosing⟩ := Source.exists_shows path h (hc c rfl)
    simp only [placeText_of_shows hclosing]
    exact ⟨_, rfl, .closes hopening hclosing⟩
  | none =>
    obtain ⟨d, hd, rfl⟩ : ∃ d, Construct.finding? ⟨n, a, none⟩ name = some d ∧ d.offset = a :=
      ⟨_, rfl, rfl⟩
    obtain ⟨pieces, hpieces, hplaced⟩ := Rendering.exists_placed colors path h ha
    simp only [hd, Option.toList_some, Rendering.diagnostics_singleton hpieces]
    exact ⟨_, rfl, .neverCloses hopening hd hplaced⟩

theorem exists_notFound (colors : Bool) (path : String)
    (h : (Text.bytes text).length + 2 ≤ maxOffset) {e : ConstructError} {d : Diagnostic}
    (he : e.finding? = some d) (hb : Text.IsBoundary text d.offset) :
    ∃ pieces, notFound colors (Source.ofText path text) name e = .ok pieces ∧
      Reports colors (Source.ofText path text) name (.error e) pieces := by
  obtain ⟨pieces, hpieces, hplaced⟩ := Rendering.exists_placed colors path h hb
  rw [notFound, he]
  simp only [hpieces]
  exact ⟨_, rfl, .refused he hplaced⟩

theorem exists_reports (colors : Bool) (path name : String)
    (h : (Text.bytes text).length + 2 ≤ maxOffset) :
    ∃ answer pieces, Construct.find text name = .ok answer ∧
      ofText colors path text name = .ok pieces ∧
      Reports colors (Source.ofText path text) name answer pieces := by
  have hmax : (Text.bytes text).length ≤ maxOffset := by omega
  obtain ⟨answer, place, ha⟩ := Construct.exists_answers hmax name
  obtain ⟨hfind, -⟩ := ha.find_eq hmax
  refine ⟨answer, ?_⟩
  rw [ofText, hfind]
  simp only [bind, Except.bind, true_and]
  cases ha with
  | nameNotFound => exact ⟨_, rfl, .missing⟩
  | noOpeningBrace hn => exact exists_notFound colors path h rfl (Text.isBoundary_of_occursAt hn)
  | found _ hbrace _ _ hbody =>
    refine exists_found colors path h (Text.isBoundary_of_lt hbrace.1.2 (by decide)) fun c hc => ?_
    have hcloses := (Buffer.closing_eq_some_iff hmax hbody).mp hc
    exact Text.isBoundary_of_lt hcloses.closeBrace (by decide)
  | notStructural _ hbrace =>
    exact exists_notFound colors path h rfl (Text.isBoundary_of_lt hbrace.1.2 (by decide))

end ConstructReport

namespace SpanReport

/-- The line of a span that has a place and is a text that is not empty. -/
def Shown (text : String) (r : Span) (pieces : List String) : Prop :=
  ∃ p chars, (LineTable.ofBytes (Text.bytes text)).position r.start = .ok (some p) ∧
    Text.slice? text r.start r.stop = some chars ∧ chars ≠ [] ∧
    pieces = [p.text, "\t", toString r.start, "..", toString r.stop, "\t", r.region.name, "\t",
      Text.Quoted.text (chars.take snippetLength), "\n"]

theorem exists_shown (text : String) (h : (Text.bytes text).length < maxOffset) :
    ∃ spans rows, (Buffer.ofText text).spans = .ok spans ∧ ofText text = .ok rows.flatten ∧
      List.Forall₂ (Shown text) spans rows := by
  have hmax : (Text.bytes text).length ≤ maxOffset := by omega
  obtain ⟨spans, hspans, hb⟩ := Buffer.exists_spans_boundaries hmax
  have hrow : ∀ r ∈ spans, ∃ pieces,
      row text (LineTable.ofBytes (Text.bytes text)) r = .ok pieces ∧ Shown text r pieces := by
    intro r hr
    obtain ⟨hstart, hstop, hlt⟩ := hb r hr
    obtain ⟨chars, hchars⟩ := Text.exists_slice hstart hstop (Nat.le_of_lt hlt)
    have hne : chars ≠ [] := by
      rintro rfl
      have := Text.add_length_of_slice? hchars
      simp only [Text.encode_nil, List.length_nil] at this
      omega
    have hp := LineTable.position_ofBytes h r.start
    cases hfind : Position.find (Text.bytes text) r.start with
    | none => exact absurd (Position.find_eq_none_iff.mp hfind) (Nat.not_lt.mpr hstart.le_length)
    | some p =>
      rw [hfind] at hp
      refine ⟨_, ?_, p, chars, hp, hchars, hne, rfl⟩
      rw [row, hp, hchars]
      rfl
  obtain ⟨rows, hrows, hshown⟩ := exists_mapM hrow
  refine ⟨spans, rows, hspans, ?_, hshown⟩
  rw [ofText, hspans]
  simp only [bind, Except.bind, hrows]
  rfl

end SpanReport

/-- Every offset in a report has a place. Each diagnostic of a check, the first unmatched brace in its
headline, each end of a body and each diagnostic of a search lie between two characters of the text and
are reported with line, column and the line of text they point at; each span has a place and is a text
that is not empty. -/
theorem Source.reports_have_places (colors : Bool) (path name text : String)
    (h : (Text.bytes text).length < maxOffset - 1) :
    (∃ checked, CheckReport.ofText colors path text = .ok checked ∧
      CheckReport.Places colors (ofText path text) checked) ∧
    (∃ answer pieces, Construct.find text name = .ok answer ∧
      ConstructReport.ofText colors path text name = .ok pieces ∧
      ConstructReport.Reports colors (ofText path text) name answer pieces) ∧
    ∃ spans rows, (Buffer.ofText text).spans = .ok spans ∧
      SpanReport.ofText text = .ok rows.flatten ∧ List.Forall₂ (SpanReport.Shown text) spans rows :=
  ⟨CheckReport.exists_places colors path (by omega),
    ConstructReport.exists_reports colors path name (by omega),
    SpanReport.exists_shown text (by omega)⟩

/-- The character of two bytes is whole in its span, and the brace after its string has a place. -/
theorem Source.places_behind_wide_character :
    (∃ checked, CheckReport.ofText false "a.ts" "'é'\x7b" = .ok checked ∧
      checked.diagnostics.map Diagnostic.offset = [4] ∧
      CheckReport.Places false (ofText "a.ts" "'é'\x7b") checked) ∧
    (∃ pieces, ConstructReport.ofText false "a.ts" "'é'\x7b" "é" = .ok pieces ∧
      ConstructReport.Reports false (ofText "a.ts" "'é'\x7b") "é" (.ok ⟨1, 4, none⟩) pieces) ∧
    ∃ rows, SpanReport.ofText "'é'\x7b" = .ok rows.flatten ∧
      List.Forall₂ (SpanReport.Shown "'é'\x7b") [⟨.quoted .single, 0, 4⟩, ⟨.code, 4, 5⟩] rows := by
  obtain ⟨⟨checked, hcheck, hplaces⟩, ⟨answer, pieces, hfind, hpieces, hreports⟩, spans, rows, hspans,
    hrows, hshown⟩ := reports_have_places false "a.ts" "é" "'é'\x7b" (by decide)
  obtain rfl : .ok ⟨1, 4, none⟩ = answer := Except.ok.inj hfind
  obtain rfl : [⟨.quoted .single, 0, 4⟩, ⟨.code, 4, 5⟩] = spans := Except.ok.inj hspans
  have hoffsets : (CheckReport.ofText false "a.ts" "'é'\x7b").map
      (fun checked => checked.diagnostics.map Diagnostic.offset) = .ok [4] := rfl
  rw [hcheck] at hoffsets
  exact ⟨⟨checked, hcheck, Except.ok.inj hoffsets, hplaces⟩, ⟨pieces, hpieces, hreports⟩, rows, hrows,
    hshown⟩

end BraceBalance
