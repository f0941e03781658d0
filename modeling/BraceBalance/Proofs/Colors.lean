import BraceBalance.Proofs.Controls
import BraceBalance.Proofs.Notices

/-!
# Colours

Deleting the escape sequences of a coloured output leaves the plain one. A colour is a whole sequence,
so nothing written beside it is taken for a part of it, and text without an escape begins none. Padding
and margins are measured before they are coloured.
-/

namespace BraceBalance

namespace Byte

abbrev escape : UInt8 := 0x1b
abbrev openBracket : UInt8 := 0x5b
abbrev letterM : UInt8 := 0x6d

end Byte

/-- Deletes the escape sequences, each from an escape and a bracket to the first `m`; `inside` says
that one has begun. -/
def withoutEscapes (inside : Bool) : List UInt8 → List UInt8
  | [] => []
  | b :: rest =>
    if inside then withoutEscapes (b != Byte.letterM) rest
    else if b = Byte.escape ∧ rest.head? = some Byte.openBracket then withoutEscapes true rest
    else b :: withoutEscapes false rest

/-- Deleting the escape sequences of `colored` leaves `plain`, whatever comes next. -/
def Erases (colored plain : List UInt8) : Prop :=
  ∀ rest, withoutEscapes false (colored ++ rest) = plain ++ withoutEscapes false rest

namespace Erases

theorem append {u v u' v' : List UInt8} (h : Erases u v) (h' : Erases u' v') :
    Erases (u ++ u') (v ++ v') := by
  intro rest
  rw [List.append_assoc, h, h', List.append_assoc]

theorem of_not_mem {bytes : List UInt8} (h : Byte.escape ∉ bytes) : Erases bytes bytes := by
  intro rest
  induction bytes with
  | nil => rfl
  | cons b bytes ih =>
    -- Without an escape no sequence begins here, whatever the next byte is.
    obtain ⟨hb, hbytes⟩ := not_or.mp (mt List.mem_cons.mpr h)
    rw [List.cons_append, withoutEscapes, if_neg Bool.false_ne_true,
      if_neg fun hbegins => hb hbegins.1.symm, ih hbytes, List.cons_append]

theorem withoutEscapes_eq {u v : List UInt8} (h : Erases u v) : withoutEscapes false u = v := by
  have hnil := h []
  rwa [List.append_nil, withoutEscapes, List.append_nil] at hnil

end Erases

namespace Text

/-- No byte of the text is an escape. -/
def EscapeFree (s : String) : Prop := Byte.escape ∉ bytes s

instance (s : String) : Decidable (EscapeFree s) :=
  inferInstanceAs (Decidable (Byte.escape ∉ bytes s))

variable {s t : String}

theorem NoControls.escapeFree (h : NoControls s) : EscapeFree s := h.not_mem_bytes (by decide)

theorem escapeFree_append : EscapeFree (s ++ t) ↔ EscapeFree s ∧ EscapeFree t := by
  rw [EscapeFree, bytes_append, List.mem_append, not_or, EscapeFree, EscapeFree]

theorem EscapeFree.append (hs : EscapeFree s) (ht : EscapeFree t) : EscapeFree (s ++ t) :=
  escapeFree_append.mpr ⟨hs, ht⟩

theorem bytes_join (pieces : List String) :
    bytes (String.join pieces) = pieces.flatMap bytes := by
  rw [bytes, String.toList_join, List.flatMap_assoc]
  rfl

theorem EscapeFree.of_subset (h : EscapeFree s) (hts : t.toList ⊆ s.toList) : EscapeFree t := by
  intro hm
  obtain ⟨c, hc, hb⟩ := List.mem_flatMap.mp hm
  exact h (List.mem_flatMap.mpr ⟨c, hts hc, hb⟩)

end Text

open Text

/-- Two lists of pieces that differ in escape sequences only. -/
def Recolored (colored plain : List String) : Prop :=
  Erases (colored.flatMap Text.bytes) (plain.flatMap Text.bytes)

namespace Recolored

theorem append {us vs us' vs' : List String} (h : Recolored us vs) (h' : Recolored us' vs') :
    Recolored (us ++ us') (vs ++ vs') := by
  rw [Recolored, List.flatMap_append, List.flatMap_append]
  exact Erases.append h h'

theorem of_escapeFree {pieces : List String} (h : ∀ piece ∈ pieces, EscapeFree piece) :
    Recolored pieces pieces :=
  Erases.of_not_mem fun hm =>
    have ⟨piece, hpiece, hb⟩ := List.mem_flatMap.mp hm
    h piece hpiece hb

theorem cons {piece : String} {us vs : List String} (hp : EscapeFree piece) (h : Recolored us vs) :
    Recolored (piece :: us) (piece :: vs) :=
  (of_escapeFree (List.forall_mem_singleton.mpr hp)).append h

theorem flatMap {α : Type} {f g : α → List String} {xs : List α}
    (h : ∀ x ∈ xs, Recolored (f x) (g x)) : Recolored (xs.flatMap f) (xs.flatMap g) := by
  induction xs with
  | nil => exact of_escapeFree nofun
  | cons x xs ih =>
    rw [List.flatMap_cons, List.flatMap_cons]
    exact (h x List.mem_cons_self).append (ih fun y hy => h y (List.mem_cons_of_mem _ hy))

/-- A colour and the reset after it are deleted, and the text between them is left. -/
theorem paint {color text : String} (hc : Erases (Text.bytes color) []) (ht : EscapeFree text) :
    Recolored (Color.paint true color text) (Color.paint false color text) := by
  have hreset : Erases (Text.bytes Color.reset) [] := fun _ => rfl
  have h := (hc.append (Erases.of_not_mem ht)).append hreset
  rw [Recolored]
  simpa [Color.paint] using h

end Recolored

theorem Color.erases_bold : Erases (Text.bytes Color.bold) [] := fun _ => rfl

theorem Color.erases_blue : Erases (Text.bytes Color.blue) [] := fun _ => rfl

theorem Color.erases_red : Erases (Text.bytes Color.red) [] := fun _ => rfl

theorem Color.erases_yellow : Erases (Text.bytes Color.yellow) [] := fun _ => rfl

theorem Severity.erases_color (s : Severity) : Erases (Text.bytes s.color) [] := by
  cases s with
  | error => exact Color.erases_red
  | warning => exact Color.erases_yellow

namespace Rendering

theorem escapeFree_caretPadding (line : String) (column : Nat) :
    EscapeFree (caretPadding line column) := by
  intro hm
  obtain ⟨c, hc, hb⟩ := List.mem_flatMap.mp hm
  rw [caretPadding, String.toList_ofList] at hc
  obtain ⟨b, -, rfl⟩ := List.mem_map.mp hc
  split at hb
  · exact absurd hb (by decide)
  · exact absurd hb (by decide)

theorem recolored_gutter {label : String} (h : NoControls label) (width : Nat) :
    Recolored (gutter true label width) (gutter false label width) := by
  refine .cons (by decide) (.paint Color.erases_blue (NoControls.escapeFree ?_))
  simp +decide [h]

theorem recolored_snippet (p : Position) {line : String} (h : EscapeFree line)
    (severity : Severity) :
    Recolored (snippet true p line severity) (snippet false p line severity) := by
  have hline : Recolored (if line.isEmpty then ["\n"] else [" ", line, "\n"])
      (if line.isEmpty then ["\n"] else [" ", line, "\n"]) := by
    refine .of_escapeFree ?_
    split
    · decide
    · exact List.forall_mem_cons.mpr ⟨by decide, List.forall_mem_cons.mpr ⟨h, by decide⟩⟩
  have hpadding : Recolored [" ", caretPadding line p.column] [" ", caretPadding line p.column] :=
    .cons (by decide) (.cons (escapeFree_caretPadding line p.column) (.of_escapeFree nofun))
  have hcaret : Recolored (Color.paint true severity.color "^")
      (Color.paint false severity.color "^") := .paint severity.erases_color (by decide)
  have hmargin := recolored_gutter (noControls_natRepr p.line) p.line.repr.length
  have hblank := recolored_gutter (by decide : NoControls "") p.line.repr.length
  exact ((((hmargin.append hline).append hblank).append hpadding).append hcaret).append
    (.of_escapeFree (by decide))

theorem recolored_header {path : String} (hpath : EscapeFree path) (place : Option Position)
    {d : Diagnostic} (hd : EscapeFree d.message) :
    Recolored (header true path place d) (header false path place d) := by
  have hmessage : Recolored [": ", d.message, "\n"] [": ", d.message, "\n"] :=
    .cons (by decide) (.cons hd (.of_escapeFree (by decide)))
  refine .append (.append (.append (.append (.paint Color.erases_bold ?location)
    (.of_escapeFree (by decide))) (.paint d.severity.erases_color ?severity))
    (.paint Color.erases_bold ?code)) hmessage
  case location =>
    cases place with
    | none => exact hpath.append (by decide)
    | some p =>
      simp only [escapeFree_append, hpath, p.noControls_text.escapeFree, true_and, and_true]
      decide
  case severity => cases d.severity <;> decide
  case code => cases d.code <;> decide

theorem recolored_note {text : String} (h : EscapeFree text) :
    Recolored (note true text) (note false text) :=
  .cons (by decide) (.append (.paint Color.erases_bold (by decide))
    (.cons (by decide) (.cons h (.of_escapeFree (by decide)))))

theorem recolored_atSpot {path : String} (hpath : EscapeFree path)
    {spot : Option (Position × Option String)}
    (hspot : ∀ p line, spot = some (p, some line) → EscapeFree line) {d : Diagnostic}
    (hd : ∀ t ∈ d.texts, EscapeFree t) :
    Recolored (atSpot true path spot d) (atSpot false path spot d) := by
  obtain ⟨hmessage, hnotes⟩ := List.forall_mem_cons.mp hd
  refine .append (.append (recolored_header hpath _ hmessage) ?_)
    (.flatMap fun text htext => recolored_note (hnotes text htext))
  match spot with
  | some (p, some line) => exact recolored_snippet p (hspot p line rfl) d.severity
  | some (_, none) => exact .of_escapeFree nofun
  | none => exact .of_escapeFree nofun

theorem recolored_line {text : String} (h : EscapeFree text) : Recolored (line text) (line text) :=
  .cons h (.of_escapeFree (by decide))

theorem noControls_counted (n : Nat) {noun : String} (h : NoControls noun) :
    NoControls (counted n noun) := by
  simp only [counted, noControls_append, Nat.toString_eq_repr, noControls_natRepr, h, true_and]
  split <;> decide

theorem recolored_summary (errors warnings : Nat) :
    Recolored (summary true errors warnings) (summary false errors warnings) := by
  have herrors : EscapeFree (counted errors "error") :=
    (noControls_counted errors (by decide)).escapeFree
  have hwarnings : EscapeFree (counted warnings "warning") :=
    (noControls_counted warnings (by decide)).escapeFree
  rw [summary, summary]
  split
  · refine .append (.paint Severity.error.erases_color (by decide)) (.of_escapeFree ?_)
    simp only [List.forall_mem_cons, herrors]
    split
    · simp +decide [escapeFree_append, hwarnings]
    · decide
  · split
    · refine .append (.paint Severity.warning.erases_color (by decide)) (.of_escapeFree ?_)
      simp +decide [hwarnings]
    · exact .of_escapeFree nofun

end Rendering

/-- Two results that fail alike, or whose pieces differ in escape sequences only. -/
inductive Recolors : Except Fault (List String) → Except Fault (List String) → Prop where
  | fault (e : Fault) : Recolors (.error e) (.error e)
  | pieces {us vs : List String} : Recolored us vs → Recolors (.ok us) (.ok vs)

namespace Recolors

variable {α : Type}

theorem bind {x : Except Fault α} {f g : α → Except Fault (List String)}
    (h : ∀ a, x = .ok a → Recolors (f a) (g a)) : Recolors (x >>= f) (x >>= g) := by
  cases x with
  | error e => exact .fault e
  | ok a => exact h a rfl

theorem append {us vs : List String} {x y : Except Fault (List String)} (hu : Recolored us vs)
    (h : Recolors x y) : Recolors ((us ++ ·) <$> x) ((vs ++ ·) <$> y) := by
  cases h with
  | fault e => exact .fault e
  | pieces h => exact .pieces (hu.append h)

theorem flatten_mapM {f g : α → Except Fault (List String)} {xs : List α}
    (h : ∀ x ∈ xs, Recolors (f x) (g x)) :
    Recolors (List.flatten <$> xs.mapM f) (List.flatten <$> xs.mapM g) := by
  have hcons : ∀ (f : α → Except Fault (List String)) x xs, List.flatten <$> (x :: xs).mapM f =
      f x >>= fun us => (us ++ ·) <$> (List.flatten <$> xs.mapM f) := by
    intro f x xs
    simp only [List.mapM_cons, map_bind, bind_pure_comp, Functor.map_map, List.flatten_cons]
  induction xs with
  | nil => exact .pieces (.of_escapeFree nofun)
  | cons x xs ih =>
    rw [hcons, hcons]
    have hrest := ih fun y hy => h y (List.mem_cons_of_mem _ hy)
    generalize hu : f x = u
    generalize hv : g x = v
    have hx := h x List.mem_cons_self
    rw [hu, hv] at hx
    cases hx with
    | fault e => exact .fault e
    | pieces hx => exact hrest.append hx

end Recolors

namespace Source

variable {s : Source}

theorem escapeFree_of_lineText (h : EscapeFree s.text) {n : Nat} {line : String}
    (hline : s.lineText n = .ok (some line)) : EscapeFree line := by
  obtain ⟨range, -, hline⟩ := exists_of_bind_eq_ok hline
  cases range with
  | none => cases hline
  | some range =>
    obtain ⟨chars, hslice, rfl⟩ := Option.map_eq_some_iff.mp (Except.ok.inj hline)
    obtain ⟨front, back, hcut, -⟩ := slice?_eq_some_iff.mp hslice
    refine h.of_subset fun c hc => ?_
    rw [String.toList_ofList] at hc
    have hmem : c ∈ chars := by
      obtain hreturn | ⟨hsame, -⟩ := dropReturn_cases chars
      · rw [hreturn]
        exact List.mem_append_left _ hc
      · rwa [hsame]
    rw [hcut.append]
    exact List.mem_append_right _ (List.mem_append_left _ hmem)

/-- The line at a spot is a part of the text. -/
theorem escapeFree_of_spot (h : EscapeFree s.text) {offset : Nat} {p : Position} {line : String}
    (hs : s.spot offset = .ok (some (p, some line))) : EscapeFree line := by
  obtain ⟨place, -, hs⟩ := exists_of_bind_eq_ok hs
  cases place with
  | none => cases hs
  | some place =>
    obtain ⟨shown, hshown, hs⟩ := exists_of_bind_eq_ok hs
    obtain ⟨rfl, rfl⟩ := Prod.mk.inj (Option.some.inj (Except.ok.inj hs))
    exact escapeFree_of_lineText h hshown

end Source

namespace Rendering

variable {s : Source}

theorem recolors_diagnostic (hpath : EscapeFree s.path) (htext : EscapeFree s.text) {d : Diagnostic}
    (hd : ∀ t ∈ d.texts, EscapeFree t) : Recolors (diagnostic true s d) (diagnostic false s d) :=
  .bind fun _ hspot => .pieces <| recolored_atSpot hpath
    (fun _ _ hline => Source.escapeFree_of_spot htext (hspot.trans (congrArg _ hline))) hd

theorem recolors_diagnostics (hpath : EscapeFree s.path) (htext : EscapeFree s.text)
    {ds : List Diagnostic} (hds : ∀ d ∈ ds, ∀ t ∈ d.texts, EscapeFree t) :
    Recolors (diagnostics true s ds) (diagnostics false s ds) :=
  .flatten_mapM fun d hd => recolors_diagnostic hpath htext (hds d hd)

end Rendering

namespace Notice

/-- The texts that a notice is made of. -/
def texts : Notice → List String
  | diagnostic source d => source.path :: source.text :: d.texts
  | diagnostics source ds => source.path :: source.text :: ds.flatMap Diagnostic.texts
  | line text => [text]
  | count _ _ => []

theorem recolors_pieces {n : Notice} (h : ∀ t ∈ n.texts, EscapeFree t) :
    Recolors (n.pieces true) (n.pieces false) := by
  cases n with
  | diagnostic source d =>
    obtain ⟨hpath, h⟩ := List.forall_mem_cons.mp h
    obtain ⟨htext, hd⟩ := List.forall_mem_cons.mp h
    exact Rendering.recolors_diagnostic hpath htext hd
  | diagnostics source ds =>
    obtain ⟨hpath, h⟩ := List.forall_mem_cons.mp h
    obtain ⟨htext, hds⟩ := List.forall_mem_cons.mp h
    exact Rendering.recolors_diagnostics hpath htext
      fun d hd t ht => hds t (List.mem_flatMap.mpr ⟨d, hd, ht⟩)
  | line text =>
    exact .pieces (Rendering.recolored_line (List.forall_mem_singleton.mp h))
  | count errors warnings => exact .pieces (Rendering.recolored_summary errors warnings)

end Notice

namespace ConstructError

theorem texts_of_finding {e : ConstructError} {d : Diagnostic} (h : e.finding? = some d) :
    d.texts = [e.message] := by
  cases e with
  | nameNotFound name => cases h
  | noOpeningBrace name offset =>
    obtain rfl := Option.some.inj h
    rfl
  | anchor e =>
    obtain rfl := Option.some.inj h
    rfl

end ConstructError

theorem Construct.escapeFree_message_of_find {text name : String} {e : ConstructError}
    (h : (Text.bytes text).length ≤ maxOffset) (hname : EscapeFree name)
    (he : find text name = .ok (.error e)) : EscapeFree e.message := by
  obtain ⟨answer, place, ha⟩ := exists_answers h name
  obtain rfl := Except.ok.inj ((ha.find_eq h).1.symm.trans he)
  cases ha with
  | nameNotFound =>
    exact .append (.append (by decide) hname) (by decide)
  | noOpeningBrace =>
    exact .append (.append (by decide) hname) (.append (by decide) (noControls_natRepr _).escapeFree)
  | notStructural => exact (AnchorError.noControls_message _).escapeFree

theorem Construct.escapeFree_of_finding {name : String} (hname : EscapeFree name) {c : Construct} :
    ∀ d ∈ (c.finding? name).toList, ∀ t ∈ d.texts, EscapeFree t := by
  intro d hd
  rw [Option.mem_toList, finding?] at hd
  split at hd
  · cases hd
  · obtain rfl := Option.some.inj hd
    refine List.forall_mem_singleton.mpr ?_
    exact .append (.append (by decide) hname) (by decide)

namespace ConstructReport

variable {s : Source} {name : String}

theorem noControls_placeText {offset : Nat} {place : String} (h : placeText s offset = .ok place) :
    NoControls place := by
  obtain ⟨p, -, h⟩ := exists_of_bind_eq_ok h
  cases p with
  | none =>
    obtain rfl := Except.ok.inj h
    exact .append (by decide) (noControls_natRepr offset)
  | some p =>
    obtain rfl := Except.ok.inj h
    exact p.noControls_text

theorem recolors_found (hpath : EscapeFree s.path) (htext : EscapeFree s.text)
    (hname : EscapeFree name) (c : Construct) :
    Recolors (found true s name c) (found false s name c) := by
  refine .bind fun opening hopening => ?_
  have hfront : EscapeFree (s.path ++ ": `" ++ name ++ "` opens at " ++ opening) := by
    simp only [escapeFree_append, hpath, hname, (noControls_placeText hopening).escapeFree, true_and,
      and_true]
    decide
  split
  · refine .bind fun closing hclosing => .pieces (Rendering.recolored_line ?_)
    exact (hfront.append (by decide)).append (noControls_placeText hclosing).escapeFree
  · exact .append (Rendering.recolored_line (hfront.append (by decide)))
      (Rendering.recolors_diagnostics hpath htext (Construct.escapeFree_of_finding hname))

theorem recolors_notFound (hpath : EscapeFree s.path) (htext : EscapeFree s.text)
    (hname : EscapeFree name) {e : ConstructError} (he : EscapeFree e.message) :
    Recolors (notFound true s name e) (notFound false s name e) := by
  rw [notFound, notFound]
  cases hd : e.finding? with
  | none =>
    exact .pieces (Rendering.recolored_line ((hpath.append (by decide)).append he))
  | some d =>
    refine .append (Rendering.recolored_line ?_) (Rendering.recolors_diagnostic hpath htext ?_)
    · simp only [escapeFree_append, hpath, hname, true_and, and_true]
      decide
    · rw [ConstructError.texts_of_finding hd]
      exact List.forall_mem_singleton.mpr he

theorem recolors_ofText {path text : String} (h : (Text.bytes text).length ≤ maxOffset)
    (hpath : EscapeFree path) (htext : EscapeFree text) (hname : EscapeFree name) :
    Recolors (ofText true path text name) (ofText false path text name) := by
  refine .bind fun answer hanswer => ?_
  cases answer with
  | ok c => exact recolors_found (s := .ofText path text) hpath htext hname c
  | error e =>
    exact recolors_notFound (s := .ofText path text) hpath htext hname
      (Construct.escapeFree_message_of_find h hname hanswer)

end ConstructReport

/-- Two checks of one text that differ in the colours of what they render. -/
structure CheckReport.DifferInColors (colored plain : CheckedText) : Prop where
  balance : colored.balance = plain.balance
  firstNegativeAt : colored.firstNegativeAt = plain.firstNegativeAt
  diagnostics : colored.diagnostics = plain.diagnostics
  errorCount : Diagnostic.errorCount colored.diagnostics = Diagnostic.errorCount plain.diagnostics
  warningCount :
    Diagnostic.warningCount colored.diagnostics = Diagnostic.warningCount plain.diagnostics
  rendered : withoutEscapes false (Text.bytes colored.rendered) = Text.bytes plain.rendered

namespace CheckReport

theorem escapeFree_headline {path : String} (hpath : EscapeFree path) (r : Balance)
    (place : Option Position) : EscapeFree (headline path r place) := by
  have hdepth : EscapeFree (path ++ ": depth " ++ toString r.finalDepth) :=
    (hpath.append (by decide)).append (noControls_intRepr r.finalDepth).escapeFree
  refine hdepth.append ?_
  cases place with
  | none => decide
  | some p => exact .append (by decide) p.noControls_text.escapeFree

/-- The diagnostics of a check do not depend on the colours, and their words hold no escape. -/
theorem exists_differInColors {path text : String} (h : (Text.bytes text).length < maxOffset - 1)
    (hpath : EscapeFree path) (htext : EscapeFree text) :
    ∃ colored plain, ofText true path text = .ok colored ∧ ofText false path text = .ok plain ∧
      DifferInColors colored plain := by
  have hmax : (Text.bytes text).length ≤ maxOffset := by omega
  obtain ⟨r, hb, -, -⟩ := exists_findings hmax
  have hofText : ∀ colors, ofText colors path text = _ := fun colors =>
    ofText_eq hmax hb fun o _ => LineTable.position_ofBytes (Nat.lt_of_lt_pred h) o
  have hwords : ∀ d ∈ (EncodingIssue.detect (Text.bytes text)).map EncodingIssue.finding ++
      r.findings (Text.bytes text).length, ∀ t ∈ d.texts, EscapeFree t := by
    intro d hd t ht
    obtain hissue | hfinding := List.mem_append.mp hd
    · obtain ⟨i, -, rfl⟩ := List.mem_map.mp hissue
      exact (i.noControls_finding t ht).escapeFree
    · exact (Balance.noControls_of_mem_findings hfinding t ht).escapeFree
  have hrecolors := Rendering.recolors_diagnostics (s := .ofText path text) hpath htext hwords
  obtain ⟨shown, hshown⟩ := Rendering.exists_diagnostics true (s := .ofText path text) ⟨rfl, h⟩ _
  -- Both checks have the same diagnostics to show, so they differ where these are rendered only.
  rw [hofText, hofText]
  rw [hshown] at hrecolors ⊢
  generalize Rendering.diagnostics false _ _ = y at hrecolors ⊢
  cases hrecolors with
  | pieces hshown =>
    refine ⟨_, _, rfl, rfl, rfl, rfl, rfl, rfl, rfl, ?_⟩
    rw [Text.bytes_join, Text.bytes_join]
    exact ((Rendering.recolored_line (escapeFree_headline hpath r _)).append hshown).withoutEscapes_eq

end CheckReport

/-- Two writes that come to an end, and leave the same but for escape sequences. -/
def Sink.DifferInColors (colored plain : Except Fault Sink) : Prop :=
  ∃ c p, colored = .ok c ∧ plain = .ok p ∧ withoutEscapes false c.taken.toList = p.taken.toList

theorem Sink.DifferInColors.of_recolors {x y : Except Fault (List String)} {pieces : List String}
    (h : Recolors x y) (hx : x = .ok pieces) :
    DifferInColors ((withRoom none).writeAny <$> x) ((withRoom none).writeAny <$> y) := by
  subst hx
  cases h with
  | pieces h =>
    refine ⟨_, _, rfl, rfl, ?_⟩
    simp only [writeAny_eq, taken_offer_withRoom, firstBytes]
    exact h.withoutEscapes_eq

theorem Sink.DifferInColors.exists_colored {x y : Except Fault Sink} {bytes : List UInt8}
    (h : DifferInColors x y) (hy : (fun s => s.taken.toList) <$> y = .ok bytes) :
    ∃ colored, x = .ok colored ∧ withoutEscapes false colored.taken.toList = bytes := by
  obtain ⟨c, p, hc, rfl, hcp⟩ := h
  exact ⟨c, hc, hcp.trans (Except.ok.inj hy)⟩

/-- Colours add escape sequences and change nothing else. Where no text has an escape of its own,
deleting them from notices or from the report on a name leaves what is written without colours, and a
check finds the same with and without them. -/
theorem ColorMode.colors_add_escapes (isTerminal : Bool) :
    (∀ ns : List Notice, (∀ n ∈ ns, ∀ s, n.source? = some s → s.Showable) →
      (∀ n ∈ ns, ∀ t ∈ n.texts, EscapeFree t) →
      Sink.DifferInColors (Notice.writeAll (always.usesColors isTerminal) (.withRoom none) ns)
        (Notice.writeAll (never.usesColors isTerminal) (.withRoom none) ns)) ∧
    ∀ path text, (Text.bytes text).length < maxOffset - 1 → EscapeFree path → EscapeFree text →
      (∀ name, EscapeFree name → Sink.DifferInColors
        (ConstructReport.writeText (always.usesColors isTerminal) path text name (.withRoom none))
        (ConstructReport.writeText (never.usesColors isTerminal) path text name (.withRoom none))) ∧
      ∃ colored plain,
        CheckReport.ofText (always.usesColors isTerminal) path text = .ok colored ∧
        CheckReport.ofText (never.usesColors isTerminal) path text = .ok plain ∧
        CheckReport.DifferInColors colored plain := by
  refine ⟨fun ns hs h => ?notices,
    fun path text h hpath htext => ⟨fun name hname => ?report, ?check⟩⟩
  case notices =>
    obtain ⟨all, hall⟩ := Notice.exists_allPieces true hs
    rw [Notice.writeAll_eq, Notice.writeAll_eq]
    exact .of_recolors (.flatten_mapM fun n hn => Notice.recolors_pieces (h n hn)) hall
  case report =>
    obtain ⟨-, pieces, -, hpieces, -⟩ :=
      ConstructReport.exists_reports true path name (Nat.add_lt_of_lt_sub h)
    rw [ConstructReport.writeText_eq, ConstructReport.writeText_eq]
    exact .of_recolors (ConstructReport.recolors_ofText (by omega) hpath htext hname) hpieces
  case check => exact CheckReport.exists_differInColors h hpath htext

/-- Brackets and letters beside the colours are no part of them. -/
theorem ColorMode.colors_beside_brackets :
    let ns : List Notice :=
      [.diagnostic (.ofText "[" "m\x7b") ⟨.unclosedOpen, .error, 1, "m[", ["[m"]⟩, .count 1 0]
    (∃ colored, Notice.writeAll true (.withRoom none) ns = .ok colored ∧
      withoutEscapes false colored.taken.toList =
        Text.bytes ("[:1:2: error[B0002]: m[\n  1 | m\x7b\n    |  ^\n  = note: [m\n" ++
          "error: 1 error found\n")) ∧
    (∃ colored, ConstructReport.writeText true "[" "m\x7b\x7d" "m" (.withRoom none) = .ok colored ∧
      withoutEscapes false colored.taken.toList =
        Text.bytes "[: `m` opens at 1:2, closes at 1:3\n") ∧
    ∃ colored plain, CheckReport.ofText true "[" "m\x7b" = .ok colored ∧
      CheckReport.ofText false "[" "m\x7b" = .ok plain ∧
      CheckReport.DifferInColors colored plain := by
  intro ns
  obtain ⟨hnotices, htext⟩ := colors_add_escapes false
  have hshowable : (Source.ofText "[" "m\x7b").Showable := ⟨rfl, by decide⟩
  have hwords : Sink.DifferInColors (Notice.writeAll true (.withRoom none) ns)
      (Notice.writeAll false (.withRoom none) ns) :=
    hnotices ns (by simp [ns, Notice.source?, hshowable])
      (by simp +decide [ns, Notice.texts, Diagnostic.texts, Source.ofText])
  have hreport : Sink.DifferInColors
      (ConstructReport.writeText true "[" "m\x7b\x7d" "m" (.withRoom none))
      (ConstructReport.writeText false "[" "m\x7b\x7d" "m" (.withRoom none)) :=
    (htext "[" "m\x7b\x7d" (by decide) (by decide) (by decide)).1 "m" (by decide)
  have hcheck := (htext "[" "m\x7b" (by decide) (by decide) (by decide)).2
  refine ⟨hwords.exists_colored ?_, hreport.exists_colored ?_, hcheck⟩
  · rfl
  · rfl

end BraceBalance
