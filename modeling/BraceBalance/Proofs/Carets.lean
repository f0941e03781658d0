import BraceBalance.Proofs.Places

/-!
# Carets

A column counts bytes and a caret counts characters. Both agree on where a brace stands: the bytes of a
line before it are those of the characters before it, and of each character exactly the first byte is no
continuation byte. The margins before a line and below it have one width, so the caret of a diagnostic
about a brace stands under that brace, wherever the carriage return of its line has gone.
-/

namespace BraceBalance

theorem Byte.isContinuation_iff {b : UInt8} :
    isContinuation b = true ↔ 0x80 ≤ b.toNat ∧ b.toNat < 0xc0 := by
  obtain ⟨⟨n⟩⟩ := b
  revert n
  decide +kernel

namespace Rendering

/-- What stands below a character left of the caret. -/
def blank (c : Char) : Char := if c = '\t' then '\t' else ' '

/-- The margin of a source line. -/
def numberedMargin (line : Nat) : String := "  " ++ toString line ++ " | "

/-- The margin below a source line. -/
def blankMargin (line : Nat) : String :=
  "  " ++ String.ofList (List.replicate (toString line).length ' ') ++ " | "

theorem length_blankMargin (line : Nat) :
    (blankMargin line).length = (numberedMargin line).length := by
  simp [blankMargin, numberedMargin]

/-- A character is one place wide: its first byte alone is no continuation byte, and is a tab just if
the character is. -/
theorem padding_utf8EncodeChar (c : Char) :
    ((String.utf8EncodeChar c).filter (!Byte.isContinuation ·)).map
      (fun b => if b = Byte.tab then '\t' else ' ') = [blank c] := by
  rcases Nat.lt_or_ge c.toNat 0x80 with hlt | hge
  · have hb : Byte.isContinuation (UInt8.ofNat c.toNat) = false := by
      rw [Bool.eq_false_iff, ne_eq, Byte.isContinuation_iff, UInt8.toNat_ofNat']
      omega
    have htab : UInt8.ofNat c.toNat = Byte.tab ↔ c = '\t' :=
      Text.ofNat_toNat_inj (a := '\t') (by decide) hlt
    simp [Text.utf8EncodeChar_of_lt hlt, hb, htab, blank]
  · obtain ⟨lead, rest, hc, hlead, hrest⟩ := Text.exists_lead hge
    have hb : Byte.isContinuation lead = false := by
      rw [Bool.eq_false_iff, ne_eq, Byte.isContinuation_iff]
      omega
    have hnil : rest.filter (!Byte.isContinuation ·) = [] := by
      rw [List.filter_eq_nil_iff]
      intro b hm
      simp [Byte.isContinuation_iff.mpr (hrest b hm)]
    have hlead : lead ≠ Byte.tab := by
      rintro rfl
      exact absurd hlead (by decide)
    have htab : c ≠ '\t' := by
      rintro rfl
      exact absurd hge (by decide)
    simp [hc, hb, hnil, hlead, blank, htab]

theorem caretPadding_eq {line : String} {before after : List Char}
    (h : line.toList = before ++ after) :
    caretPadding line ((Text.encode before).length + 1) = String.ofList (before.map blank) := by
  have htake : (Text.bytes line).take (Text.encode before).length = Text.encode before := by
    rw [← Text.encode_toList, h, Text.encode_append, List.take_left]
  rw [caretPadding, Nat.add_sub_cancel, htake]
  refine congrArg String.ofList ?_
  clear h htake
  induction before with
  | nil => rfl
  | cons c before ih =>
    rw [Text.encode_cons, List.filter_append, List.map_append, ih, padding_utf8EncodeChar]
    rfl

/-- Without colours, the snippet of a line that is not empty is two lines behind margins. -/
theorem join_snippet (p : Position) {line : String} (h : line ≠ "") (severity : Severity) :
    String.join (snippet false p line severity) = numberedMargin p.line ++ line ++ "\n" ++
      (blankMargin p.line ++ caretPadding line p.column ++ "^\n") := by
  have hempty : line.isEmpty = false := by simpa using h
  simp only [snippet, gutter, Color.paint, hempty, ← String.toList_inj]
  simp [numberedMargin, blankMargin]

end Rendering

theorem exists_of_concat_eq {α : Type} {shown before tail : List α} {c x : α}
    (h : shown ++ [x] = before ++ c :: tail) (hne : c ≠ x) :
    ∃ after, shown = before ++ c :: after := by
  obtain rfl | ⟨after, y, rfl⟩ := List.eq_nil_or_concat tail
  · obtain ⟨-, hx⟩ := List.append_inj' h rfl
    exact absurd (List.cons.inj hx).1.symm hne
  · rw [List.concat_eq_append, ← List.cons_append, ← List.append_assoc] at h
    exact ⟨after, (List.append_inj' h rfl).1⟩

/-- The line that a character stands on, and what of it stands before the character. -/
theorem Source.exists_line_around (path : String) {text : String} {front back : List Char} {c : Char}
    (htext : text.toList = front ++ c :: back) (h : (Text.bytes text).length + 2 ≤ maxOffset)
    (hn : c ≠ '\n') (hr : c ≠ '\r') :
    ∃ p line before after,
      (ofText path text).position (Text.encode front).length = .ok (some p) ∧
      (ofText path text).lineText p.line = .ok (some line) ∧
      line.toList = before ++ c :: after ∧ p.column = (Text.encode before).length + 1 := by
  have hle : front.length ≤ text.toList.length := by
    rw [htext, List.length_append]
    exact Nat.le_add_right _ _
  obtain ⟨above, piece, below, j, hcuts, hcut, hj, hlength⟩ := exists_cutAround_of_le '\n' hle
  have hsplit : front ++ c :: back = above ++ piece.take j ++ (piece.drop j ++ below) := by
    rw [← htext, hcuts, List.append_assoc above (piece.take j), ← List.append_assoc (piece.take j),
      List.take_append_drop, List.append_assoc]
  obtain ⟨rfl, hdrop⟩ := List.append_inj hsplit (by simp; omega)
  obtain ⟨tail, htail⟩ : ∃ tail, piece.drop j = c :: tail := by
    cases hpiece : piece.drop j with
    | nil =>
      rw [hpiece, List.nil_append] at hdrop
      obtain rfl | ⟨after, rfl⟩ := hcut.rest_start
      · cases hdrop
      · exact absurd (List.cons.inj hdrop).1 hn
    | cons b tail =>
      rw [hpiece] at hdrop
      obtain rfl : c = b := (List.cons.inj hdrop).1
      exact ⟨tail, rfl⟩
  have hpiece : piece = piece.take j ++ c :: tail := by rw [← htail, List.take_append_drop]
  have hbytes := Text.bytes_of_toList hcuts
  have hcount := Text.count_newline above
  have hbound : (Text.encode above).count Byte.newline ≤ (Text.encode above).length :=
    List.count_le_length
  have habove : (Text.encode above).length ≤ (Text.bytes text).length := by
    rw [hbytes, List.length_append, List.length_append]
    omega
  have hbefore : (Text.encode (piece.take j)).length ≤ (Text.encode piece).length := by
    have hlengths := congrArg (fun cs => (Text.encode cs).length) hpiece
    simp only [Text.encode_append, List.length_append] at hlengths
    omega
  have hposition : (ofText path text).position (Text.encode (above ++ piece.take j)).length =
      .ok (some ⟨above.count '\n' + 1, (Text.encode (piece.take j)).length + 1⟩) := by
    refine (LineTable.position_ofBytes (by omega) _).trans ?_
    rw [hbytes] at h ⊢
    rw [Text.encode_append, List.length_append,
      Position.find_of_lineCut (by omega) hcut.encode hbefore, hcount]
  obtain ⟨shown, hshown, hcases⟩ :=
    (hasLine_of_cut path hcuts hcut (by omega) (by omega)).shown
  obtain ⟨after, hafter⟩ : ∃ after, shown.toList = piece.take j ++ c :: after := by
    obtain hreturn | ⟨hsame, -⟩ := hcases
    · have hlist : piece = shown.toList ++ ['\r'] := by simpa using congrArg String.toList hreturn
      exact exists_of_concat_eq (hlist.symm.trans hpiece) hr
    · exact ⟨tail, by rw [← hsame, String.toList_ofList]; exact hpiece⟩
  exact ⟨_, shown, piece.take j, after, hposition, hshown, hafter, rfl⟩

namespace Rendering

/-- Below its header a diagnostic shows the line of the character `c` that it is about, and below that
line a caret: behind a margin of the same width, and one place for every character before `c`. -/
structure Points (source : Source) (d : Diagnostic) (c : Char) (p : Position) (line : String)
    (before : List Char) (pieces : List String) : Prop where
  text_byte : (Text.bytes source.text)[d.offset]? = some (UInt8.ofNat c.toNat)
  position : source.position d.offset = .ok (some p)
  lineText : source.lineText p.line = .ok (some line)
  line_byte : (Text.bytes line)[p.column - 1]? = some (UInt8.ofNat c.toNat)
  before_prefix : before ++ [c] <+: line.toList
  column : p.column = (Text.encode before).length + 1
  margins : (blankMargin p.line).length = (numberedMargin p.line).length
  written : String.join pieces = String.join (header false source.path (some p) d) ++
    (numberedMargin p.line ++ line ++ "\n" ++
      (blankMargin p.line ++ String.ofList (before.map blank) ++ "^\n")) ++
    String.join (d.notes.flatMap (note false))

/-- The pieces of a diagnostic that has a caret under the character `c` it is about. -/
def PointsAt (source : Source) (d : Diagnostic) (c : Char) (pieces : List String) : Prop :=
  ∃ p line before, Points source d c p line before pieces

theorem Placed.pointsAt {path text : String} {d : Diagnostic} {c : Char} {pieces : List String}
    (hp : Placed false (Source.ofText path text) d pieces)
    (h : (Text.bytes text).length + 2 ≤ maxOffset) (hc : c.toNat < 0x80) (hn : c ≠ '\n')
    (hr : c ≠ '\r') (hb : (Text.bytes text)[d.offset]? = some (UInt8.ofNat c.toNat)) :
    PointsAt (Source.ofText path text) d c pieces := by
  obtain ⟨front, c', back, ⟨htext, hlength⟩, hc'⟩ :=
    Text.exists_splits_of_lt hb (by rw [UInt8.toNat_ofNat']; omega)
  obtain rfl : c' = c := by
    have hcount := Text.count_utf8EncodeChar hc c'
    rw [hc', List.count_singleton_self] at hcount
    by_contra hne
    rw [if_neg hne] at hcount
    cases hcount
  obtain ⟨p, line, before, after, hposition, hline, hbefore, hcolumn⟩ :=
    Source.exists_line_around path htext h hn hr
  rw [hlength] at hposition
  obtain ⟨p', line', hshows, rfl⟩ := hp
  obtain rfl : p = p' := by simpa using hposition.symm.trans hshows.position
  obtain rfl : line = line' := by simpa using hline.symm.trans hshows.lineText
  have hne : line ≠ "" := by
    rintro rfl
    simp at hbefore
  have hbyte : (Text.bytes line)[p.column - 1]? = some (UInt8.ofNat c'.toNat) := by
    rw [← Text.encode_toList, hbefore, hcolumn, Nat.add_sub_cancel, Text.encode_append,
      List.getElem?_append_right (Nat.le_refl _), Nat.sub_self, Text.encode_cons, hc']
    rfl
  refine ⟨p, line, before, hb, hposition, hline, hbyte, ?_, hcolumn, length_blankMargin _, ?_⟩
  · exact ⟨after, by rw [hbefore, List.append_assoc]; rfl⟩
  · simp only [atSpot, Option.map_some, String.join_append, join_snippet p hne, hcolumn,
      caretPadding_eq hbefore]

end Rendering

namespace CheckReport

theorem code_of_mem_encodingWarnings {bytes : List UInt8} {d : Diagnostic}
    (h : d ∈ encodingWarnings bytes) : d.code = .encoding := by
  obtain hmark | hnull := List.mem_append.mp h
  · split at hmark
    · rw [List.mem_singleton.mp hmark]
    · cases hmark
  · obtain ⟨o, -, rfl⟩ := List.mem_map.mp hnull
    rfl

theorem code_of_mem_endErrors {length : Nat} {last : Region} {d : Diagnostic}
    (h : d ∈ endErrors length last) : d.code = .openAtEnd := by
  cases last <;> simp_all [endErrors]

/-- A diagnostic about a brace points at that brace. -/
theorem brace_of_mem_diagnosticsOf {bytes : List UInt8} {d : Diagnostic}
    (h : d ∈ diagnosticsOf bytes) :
    (d.code = .unmatchedClose → bytes[d.offset]? = some Byte.closeBrace) ∧
      (d.code = .unclosedOpen → bytes[d.offset]? = some Byte.openBrace) := by
  obtain hwarning | herror := List.mem_append.mp h
  · simp [code_of_mem_encodingWarnings hwarning]
  rw [braceErrors, List.mem_append, List.mem_append] at herror
  obtain (hstray | hopen) | hend := herror
  · obtain ⟨c, hc, rfl⟩ := List.mem_map.mp hstray
    have hmem := List.mem_of_head? (Option.mem_toList.mp hc)
    simp [Lexer.getElem?_of_role_closeBrace (mem_strays.mp hmem).1]
  · obtain ⟨o, ho, rfl⟩ := List.mem_map.mp hopen
    simp [Lexer.getElem?_of_role_openBrace (mem_leftOpen.mp ho).1]
  · simp [code_of_mem_endErrors hend]

/-- A check with a caret under every brace it finds fault with. -/
def PointsAtBraces (source : Source) (checked : CheckedText) : Prop :=
  ∃ shown, checked.rendered = String.join (Rendering.line
      (headline source.path checked.balance checked.firstNegativeAt) ++ shown.flatten) ∧
    List.Forall₂ (fun d pieces =>
      (d.code = .unmatchedClose → Rendering.PointsAt source d '\x7d' pieces) ∧
      (d.code = .unclosedOpen → Rendering.PointsAt source d '\x7b' pieces))
      checked.diagnostics shown

theorem exists_pointsAtBraces (path : String) {text : String}
    (h : (Text.bytes text).length + 2 ≤ maxOffset) :
    ∃ checked, ofText false path text = .ok checked ∧
      PointsAtBraces (Source.ofText path text) checked := by
  have hmax : (Text.bytes text).length ≤ maxOffset := by omega
  obtain ⟨r, hb, -, hd⟩ := exists_findings hmax
  obtain ⟨shown, hplaced, hcheck⟩ := exists_ofText_placed false path h hb
  refine ⟨_, hcheck, shown, rfl, ?_⟩
  have hbraces := fun d (hm : d ∈ diagnosticsOf (Text.bytes text)) => brace_of_mem_diagnosticsOf hm
  rw [← hd] at hbraces
  refine ((List.forall₂_and_left _ _).mpr ⟨hbraces, hplaced⟩).imp ?_
  rintro d pieces ⟨⟨hclose, hopen⟩, hp⟩
  constructor
  · intro hcode
    exact hp.pointsAt h (by decide) (by decide) (by decide) (hclose hcode)
  · intro hcode
    exact hp.pointsAt h (by decide) (by decide) (by decide) (hopen hcode)

end CheckReport

namespace Construct

/-- A search that gets as far as an anchor has found an opening brace. -/
theorem openBrace_of_find {text name : String} (h : (Text.bytes text).length ≤ maxOffset)
    {answer : Except ConstructError Construct} (hf : find text name = .ok answer) :
    (∀ c, answer = .ok c → (Text.bytes text)[c.body.anchor]? = some Byte.openBrace) ∧
      ∀ offset region, answer = .error (.anchor (.notStructural offset region)) →
        (Text.bytes text)[offset]? = some Byte.openBrace := by
  obtain ⟨answer', place, ha⟩ := exists_answers h name
  obtain ⟨hfind, -⟩ := ha.find_eq h
  obtain rfl : answer = answer' := Except.ok.inj (hf.symm.trans hfind)
  cases ha with
  | nameNotFound => exact ⟨nofun, nofun⟩
  | noOpeningBrace => exact ⟨nofun, nofun⟩
  | found _ hbrace =>
    refine ⟨?_, nofun⟩
    rintro c ⟨⟩
    exact hbrace.1.2
  | notStructural _ hbrace =>
    refine ⟨nofun, ?_⟩
    rintro offset region ⟨⟩
    exact hbrace.1.2

end Construct

namespace ConstructReport

/-- A report on a search with a caret under the brace of a body that is never closed, and under one
that cannot open a body. -/
structure PointsAtBrace (source : Source) (name : String) (answer : Except ConstructError Construct)
    (report : List String) : Prop where
  neverClosed : ∀ c d, answer = .ok c → c.finding? name = some d →
    d.code = .bodyNotClosed ∧ ∃ result pieces, report = Rendering.line result ++ pieces ∧
      Rendering.PointsAt source d '\x7b' pieces
  notStructural : ∀ offset region, answer = .error (.anchor (.notStructural offset region)) →
    ∃ result pieces, report = Rendering.line result ++ pieces ∧
      Rendering.PointsAt source (AnchorError.notStructural offset region).finding '\x7b' pieces

theorem exists_pointsAtBrace (path name : String) {text : String}
    (h : (Text.bytes text).length + 2 ≤ maxOffset) :
    ∃ answer report, Construct.find text name = .ok answer ∧
      ofText false path text name = .ok report ∧
      PointsAtBrace (Source.ofText path text) name answer report := by
  obtain ⟨answer, report, hfind, hreport, hr⟩ := exists_reports false path name h
  obtain ⟨hok, herror⟩ := Construct.openBrace_of_find (by omega) hfind
  refine ⟨answer, report, hfind, hreport, ?_⟩
  cases hr with
  | closes =>
    refine ⟨?_, nofun⟩
    rintro c d ⟨⟩ hd
    cases hd
  | neverCloses _ hd hplaced =>
    refine ⟨?_, nofun⟩
    rintro c d ⟨⟩ hd'
    obtain rfl := Option.some.inj (hd.symm.trans hd')
    obtain rfl := Option.some.inj hd
    exact ⟨rfl, _, _, rfl, hplaced.pointsAt h (by decide) (by decide) (by decide) (hok _ rfl)⟩
  | refused hd hplaced =>
    refine ⟨nofun, ?_⟩
    rintro offset region ⟨⟩
    obtain rfl := Option.some.inj hd
    exact ⟨_, _, rfl, hplaced.pointsAt h (by decide) (by decide) (by decide) (herror _ _ rfl)⟩
  | missing => exact ⟨nofun, nofun⟩

end ConstructReport

/-- The caret stands under the brace. Whatever diagnostic a check or a search reports about a brace, it
shows the line of that brace, in which the brace is the byte in the reported column, and in the line
below a caret: behind a margin of the same width, and one place for every character before the brace,
where a tab is kept and all else is left blank. -/
theorem Rendering.caret_under_brace (path name text : String)
    (h : (Text.bytes text).length < maxOffset - 1) :
    (∃ checked, CheckReport.ofText false path text = .ok checked ∧
      CheckReport.PointsAtBraces (Source.ofText path text) checked) ∧
    ∃ answer report, Construct.find text name = .ok answer ∧
      ConstructReport.ofText false path text name = .ok report ∧
      ConstructReport.PointsAtBrace (Source.ofText path text) name answer report :=
  ⟨CheckReport.exists_pointsAtBraces path (by omega),
    ConstructReport.exists_pointsAtBrace path name (by omega)⟩

/-- A wide character and a tab stand before the brace, and a carriage return behind it: the caret is
behind a blank and a tab, and the carriage return is not shown. -/
theorem Rendering.caret_behind_tab :
    ∃ checked, CheckReport.ofText false "a.ts" "é\t\x7d\r\n" = .ok checked ∧
      CheckReport.PointsAtBraces (Source.ofText "a.ts" "é\t\x7d\r\n") checked ∧
      checked.rendered = "a.ts: depth -1, first unmatched `\x7d` at 1:4\n" ++
        "a.ts:1:4: error[B0001]: unmatched closing brace\n" ++
        "  1 | é\t\x7d\n" ++
        "    |  \t^\n" ++
        "  = note: brace depth at end of text is -1\n" := by
  obtain ⟨⟨checked, hcheck, hpoints⟩, -⟩ := caret_under_brace "a.ts" "é" "é\t\x7d\r\n" (by decide)
  have hrendered : (CheckReport.ofText false "a.ts" "é\t\x7d\r\n").map CheckedText.rendered =
      .ok ("a.ts: depth -1, first unmatched `\x7d` at 1:4\n" ++
        "a.ts:1:4: error[B0001]: unmatched closing brace\n" ++
        "  1 | é\t\x7d\n" ++
        "    |  \t^\n" ++
        "  = note: brace depth at end of text is -1\n") := by
    decide +kernel
  rw [hcheck] at hrendered
  exact ⟨checked, hcheck, hpoints, Except.ok.inj hrendered⟩

end BraceBalance
