import BraceBalance.Report.Check
import BraceBalance.Proofs.Bodies
import BraceBalance.Proofs.Matching
import BraceBalance.Proofs.Spots

/-!
# Checking

What a check reports is known from the text: its byte order mark, its null bytes, the braces left
without partner and the region at its end. A check of a text with two offsets to spare meets no
fault, and since a closing brace finds no partner only where no brace is open, every unmatched
closing brace stands before every brace left open: the errors come in the order of their offsets.
-/

namespace BraceBalance

section

variable {roles : List Role}

/-- The opening braces of a text without partner, ascending. -/
def leftOpen (roles : List Role) : List Nat :=
  (List.range roles.length).filter (isFree roles (pairsBefore roles roles.length))

theorem reverse_freeBefore (roles : List Role) :
    (freeBefore roles roles.length).reverse = leftOpen roles := by
  rw [freeBefore, List.filter_reverse, List.reverse_reverse, leftOpen]

theorem leftOpen_ascending (roles : List Role) : (leftOpen roles).Pairwise (· < ·) :=
  List.pairwise_lt_range.filter _

theorem mem_leftOpen {o : Nat} :
    o ∈ leftOpen roles ↔ roles[o]? = some .openBrace ∧ ∀ c, ¬ Paired roles o c := by
  rw [leftOpen, List.mem_filter, isFree_iff, List.mem_range]
  constructor
  · rintro ⟨-, h⟩
    exact h
  · rintro ⟨hr, hp⟩
    exact ⟨(List.getElem?_eq_some_iff.mp hr).1, hr, hp⟩

theorem leftOpen_eq_nil_iff :
    leftOpen roles = [] ↔ ∀ o, roles[o]? = some .openBrace → ∃ c, Paired roles o c := by
  rw [List.eq_nil_iff_forall_not_mem]
  refine forall_congr' fun o => ?_
  rw [mem_leftOpen]
  simp

/-- A closing brace without partner would have taken an opening brace that stands before it. -/
theorem lt_of_mem_strays_of_mem_leftOpen {c o : Nat} (hc : c ∈ strays roles)
    (ho : o ∈ leftOpen roles) : c < o := by
  obtain ⟨hclose, hstray⟩ := mem_strays.mp hc
  obtain ⟨hopen, hfree⟩ := mem_leftOpen.mp ho
  have hlt : c < roles.length := (List.getElem?_eq_some_iff.mp hclose).1
  refine Nat.lt_of_le_of_ne (Nat.le_of_not_lt fun hoc => ?_) ?_
  · have hmem : o ∈ freeBefore roles c := by
      refine mem_freeBefore.mpr ⟨hoc, hopen, fun d hd => hfree d ?_⟩
      obtain ⟨hdc, hd⟩ := mem_pairsBefore.mp hd
      exact mem_pairsBefore.mpr ⟨by omega, hd⟩
    obtain ⟨nearest, hnearest⟩ := Option.isSome_iff_exists.mp
      (List.isSome_head?.mpr (List.ne_nil_of_mem hmem))
    exact hstray nearest (mem_pairsBefore.mpr ⟨hlt, hclose, hnearest⟩)
  · rintro rfl
    rw [hclose] at hopen
    cases hopen

end

namespace CheckReport

/-- A warning for a byte order mark at the start, and one for every null byte. -/
def encodingWarnings (bytes : List UInt8) : List Diagnostic :=
  (if [0xef, 0xbb, 0xbf] <+: bytes then
    [⟨.encoding, .warning, 0, "UTF-8 byte order mark at start of file", []⟩] else []) ++
  (offsetsOf 0 bytes).map
    (fun o => ⟨.encoding, .warning, o, "null byte inside source text", []⟩)

/-- An error at the end of a text that leaves a comment, string or template literal open. -/
def endErrors (length : Nat) (last : Region) : List Diagnostic :=
  match last with
  | .code | .lineComment => []
  | .blockComment | .quoted _ | .template _ =>
    [⟨.openAtEnd, .error, length, "unterminated " ++ last.name ++ " at end of text",
      ["braces after the opening delimiter were not counted"]⟩]

/-- An error for the first closing brace without partner, one for every opening brace without
partner, and one for what the end of the text leaves open. -/
def braceErrors (length : Nat) (roles : List Role) (last : Region) : List Diagnostic :=
  (strays roles).head?.toList.map
    (fun c => ⟨.unmatchedClose, .error, c, "unmatched closing brace",
      if surplus roles = 0 then []
      else ["brace depth at end of text is " ++ toString (surplus roles)]⟩) ++
  (leftOpen roles).map
    (fun o => ⟨.unclosedOpen, .error, o, "unclosed opening brace", []⟩) ++
  endErrors length last

variable {bytes : List UInt8} {roles : List Role} {last : Region} {t : Tally}

theorem map_finding_detect (h : bytes.length ≤ maxOffset) :
    (EncodingIssue.detect bytes).map EncodingIssue.finding = encodingWarnings bytes := by
  have hn := filterMap_zipIdx 0 (fun i => (⟨.nullByte, i, 1⟩ : EncodingIssue)) (· ≤ maxOffset)
    bytes 0 (fun i hi => by omega)
  rw [EncodingIssue.detect, hn, List.map_append, List.map_map]
  simp only [Nat.zero_add, Function.comp_def, EncodingIssue.byteOrderMark,
    List.isPrefixOf_iff_prefix, encodingWarnings]
  congr 1
  split <;> rfl

theorem findings_ofTally (h : t.Tracks roles roles.length) (hd : t.depth = surplus roles)
    (hl : t.lexer.region = last) (length : Nat) :
    (Balance.ofTally t).findings length = braceErrors length roles last := by
  have hf : (Balance.ofTally t).firstNegative = (strays roles).head? := h.firstNegative
  have hu : (Balance.ofTally t).unclosed = leftOpen roles := by
    rw [Balance.unclosed_ofTally h, reverse_freeBefore]
  have hdepth : (Balance.ofTally t).finalDepth = surplus roles := hd
  have hregion : (Balance.ofTally t).endRegion = last := hl
  rw [Balance.findings, hf, hu, hregion]
  congr 1
  · congr 1
    cases (strays roles).head? <;> simp [Balance.unmatchedFinding, hdepth]
  · cases last <;> simp [Region.isOpenAtEnd, Balance.openAtEndFinding, endErrors, hregion]

theorem encodingWarnings_eq_nil_iff :
    encodingWarnings bytes = [] ↔ ¬ [0xef, 0xbb, 0xbf] <+: bytes ∧ 0 ∉ bytes := by
  have hz : offsetsOf 0 bytes = [] ↔ 0 ∉ bytes := by
    rw [List.eq_nil_iff_forall_not_mem, List.mem_iff_getElem?]
    simp [mem_offsetsOf]
  rw [encodingWarnings, List.append_eq_nil_iff, List.map_eq_nil_iff, hz]
  simp

theorem braceErrors_eq_nil_iff (length : Nat) :
    braceErrors length roles last = [] ↔
      (∀ o, roles[o]? = some .openBrace → ∃ c, Paired roles o c) ∧
      (∀ c, roles[c]? = some .closeBrace → ∃ o, Paired roles o c) ∧
      (last = .code ∨ last = .lineComment) := by
  rw [← leftOpen_eq_nil_iff, ← strays_eq_nil_iff, braceErrors, List.append_eq_nil_iff,
    List.append_eq_nil_iff, List.map_eq_nil_iff, List.map_eq_nil_iff]
  have hs : (strays roles).head?.toList = [] ↔ strays roles = [] := by
    cases strays roles <;> simp
  have hl : endErrors length last = [] ↔ last = .code ∨ last = .lineComment := by
    cases last <;> simp [endErrors]
  rw [hs, hl]
  constructor
  · rintro ⟨⟨hstrays, hopen⟩, hlast⟩
    exact ⟨hopen, hstrays, hlast⟩
  · rintro ⟨hopen, hstrays, hlast⟩
    exact ⟨⟨hstrays, hopen⟩, hlast⟩

theorem isError_of_mem_encodingWarnings {d : Diagnostic} (h : d ∈ encodingWarnings bytes) :
    d.isError = false := by
  rw [encodingWarnings, List.mem_append] at h
  obtain hmark | hnull := h
  · split at hmark
    · obtain rfl := List.mem_singleton.mp hmark
      rfl
    · cases hmark
  · obtain ⟨o, -, rfl⟩ := List.mem_map.mp hnull
    rfl

theorem of_mem_endErrors {length : Nat} {d : Diagnostic} (h : d ∈ endErrors length last) :
    d.severity = .error ∧ d.offset = length := by
  cases last <;> simp_all [endErrors]

theorem isError_of_mem_braceErrors {length : Nat} {d : Diagnostic}
    (h : d ∈ braceErrors length roles last) : d.isError = true := by
  rw [braceErrors, List.mem_append, List.mem_append] at h
  obtain (hstray | hopen) | hend := h
  · obtain ⟨c, -, rfl⟩ := List.mem_map.mp hstray
    rfl
  · obtain ⟨o, -, rfl⟩ := List.mem_map.mp hopen
    rfl
  · obtain ⟨hs, -⟩ := of_mem_endErrors hend
    rw [Diagnostic.isError, hs]
    rfl

theorem filter_isError (bytes : List UInt8) (length : Nat) (roles : List Role) (last : Region) :
    (encodingWarnings bytes ++ braceErrors length roles last).filter Diagnostic.isError =
      braceErrors length roles last := by
  have hw : (encodingWarnings bytes).filter Diagnostic.isError = [] := by
    rw [List.filter_eq_nil_iff]
    intro d hd
    simp [isError_of_mem_encodingWarnings hd]
  rw [List.filter_append, hw, List.nil_append, List.filter_eq_self]
  exact fun d => isError_of_mem_braceErrors

theorem map_offset_braceErrors (length : Nat) (roles : List Role) (last : Region) :
    (braceErrors length roles last).map Diagnostic.offset =
      (strays roles).head?.toList ++ leftOpen roles ++
        (endErrors length last).map Diagnostic.offset := by
  simp only [braceErrors, List.map_append, List.map_map, Function.comp_def, List.map_id']

/-- The errors come in the order of their offsets. -/
theorem offsets_braceErrors_ascending (roles : List Role) (last : Region) :
    ((braceErrors roles.length roles last).map Diagnostic.offset).Pairwise (· < ·) := by
  have hends : ((endErrors roles.length last).map Diagnostic.offset).Pairwise (· < ·) := by
    cases last <;> simp [endErrors]
  have hstray : ∀ c ∈ (strays roles).head?.toList, c ∈ strays roles := by
    intro c hc
    exact List.mem_of_head? (Option.mem_toList.mp hc)
  rw [map_offset_braceErrors, List.pairwise_append, List.pairwise_append]
  refine ⟨⟨?_, leftOpen_ascending roles, ?_⟩, hends, ?_⟩
  · cases (strays roles).head? <;> simp
  · intro c hc o ho
    exact lt_of_mem_strays_of_mem_leftOpen (hstray c hc) ho
  · intro o ho n hn
    obtain ⟨d, hd, rfl⟩ := List.mem_map.mp hn
    obtain ⟨-, hoffset⟩ := of_mem_endErrors hd
    rw [hoffset]
    obtain hc | ho := List.mem_append.mp ho
    · exact (List.getElem?_eq_some_iff.mp (mem_strays.mp (hstray o hc)).1).1
    · exact (List.getElem?_eq_some_iff.mp (mem_leftOpen.mp ho).1).1

/-- What the diagnostics of a text are, when there are none, and in which order its errors come. -/
structure Diagnoses (ds : List Diagnostic) (bytes : List UInt8) (roles : List Role)
    (last : Region) : Prop where
  eq_append : ds = encodingWarnings bytes ++ braceErrors bytes.length roles last
  eq_nil_iff : ds = [] ↔
    (¬ [0xef, 0xbb, 0xbf] <+: bytes ∧ 0 ∉ bytes) ∧
      (∀ o, roles[o]? = some .openBrace → ∃ c, Paired roles o c) ∧
      (∀ c, roles[c]? = some .closeBrace → ∃ o, Paired roles o c) ∧
      (last = .code ∨ last = .lineComment)
  errors_ascending : ((ds.filter Diagnostic.isError).map Diagnostic.offset).Pairwise (· < ·)
  stray_lt_open : ∀ c o, roles[c]? = some .closeBrace → (∀ o', ¬ Paired roles o' c) →
    roles[o]? = some .openBrace → (∀ c', ¬ Paired roles o c') → c < o

theorem diagnoses_append (h : bytes.length = roles.length) (last : Region) :
    Diagnoses (encodingWarnings bytes ++ braceErrors bytes.length roles last) bytes roles last where
  eq_append := rfl
  eq_nil_iff := by
    rw [List.append_eq_nil_iff, encodingWarnings_eq_nil_iff, braceErrors_eq_nil_iff]
  errors_ascending := by
    rw [filter_isError, h]
    exact offsets_braceErrors_ascending roles last
  stray_lt_open := by
    intro c o hc hstray ho hopen
    exact lt_of_mem_strays_of_mem_leftOpen (mem_strays.mpr ⟨hc, hstray⟩)
      (mem_leftOpen.mpr ⟨ho, hopen⟩)

/-- The diagnostics of a text. -/
def diagnosticsOf (bytes : List UInt8) : List Diagnostic :=
  encodingWarnings bytes ++
    braceErrors bytes.length (Lexer.start.roles bytes) (Lexer.start.after bytes).region

/-- What a check makes of a scan's answer are the diagnostics of the text. -/
theorem exists_findings (h : bytes.length ≤ maxOffset) :
    ∃ r, (Buffer.ofBytes bytes).balance = .ok r ∧
      r.firstNegative = (strays (Lexer.start.roles bytes)).head? ∧
      (EncodingIssue.detect bytes).map EncodingIssue.finding ++ r.findings bytes.length =
        diagnosticsOf bytes := by
  have htracks := Tally.tracks_readAll_length bytes
  have hregion : (Tally.start.readAll bytes.zipIdx).lexer.region =
      (Lexer.start.after bytes).region := by
    rw [Tally.lexer_readAll]
    rfl
  refine ⟨_, Buffer.balance_ofBytes h, htracks.firstNegative, ?_⟩
  rw [map_finding_detect h, findings_ofTally htracks (Tally.depth_readAll_start bytes) hregion]
  rfl

section

variable {colors : Bool} {path text : String} {r : Balance}

theorem isBoundary_of_mem_encodingWarnings {d : Diagnostic}
    (h : d ∈ encodingWarnings (Text.bytes text)) : Text.IsBoundary text d.offset := by
  obtain hmark | hnull := List.mem_append.mp h
  · split at hmark
    · obtain rfl := List.mem_singleton.mp hmark
      exact Text.isBoundary_zero text
    · cases hmark
  · obtain ⟨o, ho, rfl⟩ := List.mem_map.mp hnull
    exact Text.isBoundary_of_lt (mem_offsetsOf.mp ho) (by decide)

theorem isBoundary_of_mem_strays {c : Nat} (h : c ∈ strays (Lexer.start.roles (Text.bytes text))) :
    Text.IsBoundary text c :=
  Text.isBoundary_of_lt (Lexer.getElem?_of_role_closeBrace (mem_strays.mp h).1) (by decide)

theorem isBoundary_of_mem_diagnosticsOf {d : Diagnostic}
    (h : d ∈ diagnosticsOf (Text.bytes text)) : Text.IsBoundary text d.offset := by
  obtain hwarning | herror := List.mem_append.mp h
  · exact isBoundary_of_mem_encodingWarnings hwarning
  rw [braceErrors, List.mem_append, List.mem_append] at herror
  obtain (hstray | hopen) | hend := herror
  · obtain ⟨c, hc, rfl⟩ := List.mem_map.mp hstray
    exact isBoundary_of_mem_strays (List.mem_of_head? (Option.mem_toList.mp hc))
  · obtain ⟨o, ho, rfl⟩ := List.mem_map.mp hopen
    exact Text.isBoundary_of_lt (Lexer.getElem?_of_role_openBrace (mem_leftOpen.mp ho).1) (by decide)
  · rw [(of_mem_endErrors hend).2]
    exact Text.isBoundary_length text

/-- A check places the first unmatched brace, and lists the encoding issues before the findings on the
balance; it comes to an end if they can be shown. -/
theorem ofText_eq (h : (Text.bytes text).length ≤ maxOffset)
    (hb : (Buffer.ofText text).balance = .ok r)
    (hf : ∀ offset, r.firstNegative = some offset →
      (Source.ofText path text).position offset = .ok (Position.find (Text.bytes text) offset)) :
    ofText colors path text =
      (Rendering.diagnostics colors (Source.ofText path text)
        ((EncodingIssue.detect (Text.bytes text)).map EncodingIssue.finding ++
          r.findings (Text.bytes text).length)).map fun pieces =>
        ⟨r, r.firstNegative.bind (Position.find (Text.bytes text)),
          (EncodingIssue.detect (Text.bytes text)).map EncodingIssue.finding ++
            r.findings (Text.bytes text).length,
          String.join (Rendering.line (headline path r
            (r.firstNegative.bind (Position.find (Text.bytes text)))) ++ pieces)⟩ := by
  have hlength : (Buffer.ofText text).length = (Text.bytes text).length :=
    Buffer.length_ofBytes _ h
  rw [ofText, hb]
  simp only [bind, Except.bind, hlength]
  generalize Rendering.diagnostics colors _ _ = shown
  cases hn : r.firstNegative with
  | none => cases shown <;> rfl
  | some offset =>
    simp only [hf offset hn]
    cases shown <;> rfl

/-- A check of a text with two offsets to spare meets no fault, and places all of its diagnostics. -/
theorem exists_ofText_placed (colors : Bool) (path : String)
    (h : (Text.bytes text).length + 2 ≤ maxOffset) (hb : (Buffer.ofText text).balance = .ok r) :
    ∃ pieces, List.Forall₂ (Rendering.Placed colors (Source.ofText path text))
        ((EncodingIssue.detect (Text.bytes text)).map EncodingIssue.finding ++
          r.findings (Text.bytes text).length) pieces ∧
      ofText colors path text = .ok
        ⟨r, r.firstNegative.bind (Position.find (Text.bytes text)),
          (EncodingIssue.detect (Text.bytes text)).map EncodingIssue.finding ++
            r.findings (Text.bytes text).length,
          String.join (Rendering.line (headline path r
            (r.firstNegative.bind (Position.find (Text.bytes text)))) ++ pieces.flatten)⟩ := by
  have hmax : (Text.bytes text).length ≤ maxOffset := by omega
  obtain ⟨r', hb', -, hd⟩ := exists_findings hmax
  obtain rfl : r = r' := Except.ok.inj (hb.symm.trans hb')
  obtain ⟨pieces, hpieces, hplaced⟩ := Rendering.exists_forall₂_placed colors path h
    fun d => isBoundary_of_mem_diagnosticsOf (d := d)
  rw [← hd] at hpieces hplaced
  rw [ofText_eq hmax hb fun o _ => LineTable.position_ofBytes (by omega) o, hpieces]
  exact ⟨pieces, hplaced, rfl⟩

theorem exists_ofText (colors : Bool) (path : String) (h : (Text.bytes text).length + 2 ≤ maxOffset)
    (hb : (Buffer.ofText text).balance = .ok r) :
    ∃ rendered, ofText colors path text = .ok
      ⟨r, r.firstNegative.bind (Position.find (Text.bytes text)),
        (EncodingIssue.detect (Text.bytes text)).map EncodingIssue.finding ++
          r.findings (Text.bytes text).length, rendered⟩ := by
  obtain ⟨pieces, -, hcheck⟩ := exists_ofText_placed colors path h hb
  exact ⟨_, hcheck⟩

end

/-- The diagnostics of a check are the ones its text calls for: a warning for a byte order mark and
for each null byte, and errors for the first unmatched closing brace, for each unclosed opening brace
and for what is left open at the end. There are none just if the text has no such byte and all of its
braces are paired, and the errors come in the order of their offsets. -/
theorem diagnoses_ofText (colors : Bool) (path text : String)
    (h : (Text.bytes text).length < maxOffset - 1) :
    ∃ readings last checked, Lexer.start.trace (Text.bytes text) = .ok readings ∧
      Lexer.start.run (Text.bytes text) = .ok last ∧ ofText colors path text = .ok checked ∧
      checked.balance.finalDepth = surplus (readings.map Prod.fst) ∧
      Diagnoses checked.diagnostics (Text.bytes text) (readings.map Prod.fst) last.region := by
  have hmax : (Text.bytes text).length ≤ maxOffset := by omega
  have hb : (Buffer.ofText text).balance =
      .ok (.ofTally (Tally.start.readAll (Text.bytes text).zipIdx)) := Buffer.balance_ofBytes hmax
  obtain ⟨rendered, hcheck⟩ := exists_ofText colors path (by omega) hb
  have htracks := Tally.tracks_readAll_length (Text.bytes text)
  have hdepth := Tally.depth_readAll_start (Text.bytes text)
  have hregion : (Tally.start.readAll (Text.bytes text).zipIdx).lexer.region =
      (Lexer.start.after (Text.bytes text)).region := by
    rw [Tally.lexer_readAll]
    rfl
  have hlength : (Text.bytes text).length = (Lexer.start.roles (Text.bytes text)).length :=
    (Lexer.length_roles _ _).symm
  refine ⟨_, _, _, Lexer.start_trace hmax, Lexer.start_run hmax, hcheck, hdepth, ?_⟩
  simp only [map_finding_detect hmax, findings_ofTally htracks hdepth hregion]
  exact diagnoses_append hlength _

/-- A brace that closes nothing, one that is never closed, and a template literal left open. -/
theorem diagnoses_of_stray :
    ∃ checked, ofText false "a.ts" "\x7d\x7b`" = .ok checked ∧
      Diagnoses checked.diagnostics [Byte.closeBrace, Byte.openBrace, Byte.backtick]
        [.closeBrace, .openBrace, .inert] (.template 0) ∧
      checked.diagnostics.map (fun d => (d.code, d.offset)) =
        [(.unmatchedClose, 0), (.unclosedOpen, 1), (.openAtEnd, 3)] := by
  obtain ⟨readings, last, checked, ht, hr, hc, -, hd⟩ :=
    diagnoses_ofText false "a.ts" "\x7d\x7b`" (by decide)
  obtain rfl : [(.closeBrace, .code), (.openBrace, .code), (.inert, .template 0)] = readings :=
    Except.ok.inj ht
  obtain rfl : ⟨.template 0, some Byte.backtick, false⟩ = last := Except.ok.inj hr
  exact ⟨checked, hc, hd, by rw [hd.eq_append]; rfl⟩

end CheckReport

end BraceBalance
