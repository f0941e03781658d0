import BraceBalance.Notice
import BraceBalance.Proofs.Places
import BraceBalance.Proofs.Sinks

/-!
# Notices

Whoever writes notices is never told that one was refused, and goes on; the table of spans stops at
the first refusal. Either way a sink with room for so many bytes holds the first of those that one
without a limit holds, wherever its limit falls: between two notices, in a colour or in a character.
-/

namespace BraceBalance

/-- A source as it is made from a text, with two offsets to spare. -/
structure Source.Showable (s : Source) : Prop where
  lines_eq : s.lines = .ofBytes (Text.bytes s.text)
  length_lt : (Text.bytes s.text).length < maxOffset - 1

theorem Source.Showable.exists_spot {s : Source} (h : s.Showable) (offset : Nat) :
    ∃ spot, s.spot offset = .ok spot := by
  obtain ⟨path, text, lines⟩ := s
  obtain rfl : lines = .ofBytes (Text.bytes text) := h.lines_eq
  exact Source.exists_spot path (Nat.add_lt_of_lt_sub h.length_lt) offset

theorem exists_flatten_mapM {α β : Type} {f : α → Except Fault (List β)} {xs : List α}
    (h : ∀ x ∈ xs, ∃ ys, f x = .ok ys) : ∃ ys, List.flatten <$> xs.mapM f = .ok ys := by
  obtain ⟨yss, hyss, -⟩ := exists_mapM (R := fun _ _ => True) fun x hx =>
    (h x hx).imp fun _ hy => ⟨hy, trivial⟩
  exact ⟨yss.flatten, by rw [hyss]; rfl⟩

theorem Rendering.exists_diagnostic (colors : Bool) {s : Source} (h : s.Showable) (d : Diagnostic) :
    ∃ pieces, diagnostic colors s d = .ok pieces := by
  obtain ⟨spot, hspot⟩ := h.exists_spot d.offset
  exact ⟨_, by rw [diagnostic, hspot]; rfl⟩

theorem Rendering.exists_diagnostics (colors : Bool) {s : Source} (h : s.Showable)
    (ds : List Diagnostic) : ∃ pieces, diagnostics colors s ds = .ok pieces :=
  exists_flatten_mapM fun d _ => exists_diagnostic colors h d

/-- What a write leaves in a sink without a limit, and how much of it under each limit. -/
structure Sink.Leaves (bytes : List UInt8) (write : Sink → Except Fault Sink) : Prop where
  unlimited : ∃ out, write (withRoom none) = .ok out ∧ out.taken.toList = bytes
  limited : ∀ limit, ∃ out, write (withRoom (some limit)) = .ok out ∧
    out.taken.toList = bytes.take (min limit bytes.length)

theorem Sink.taken_offer_limited (limit : Nat) (bytes : List UInt8) :
    ((withRoom (some limit)).offer bytes).taken.toList = bytes.take (min limit bytes.length) := by
  rw [taken_offer_withRoom, firstBytes, List.take_eq_take_min]

/-- Writing the same pieces to every sink, and going on after a refusal, leaves prefixes. -/
theorem Sink.Leaves.of_writeAny {pieces : List String} {write : Sink → Except Fault Sink}
    (h : ∀ out, write out = .ok (out.writeAny pieces)) :
    Leaves (pieces.flatMap Text.bytes) write where
  unlimited := ⟨_, h _, by rw [writeAny_eq, taken_offer_withRoom]; rfl⟩
  limited limit := ⟨_, h _, by rw [writeAny_eq, taken_offer_limited]⟩

theorem Sink.Leaves.exists_limited {bytes first : List UInt8} {write : Sink → Except Fault Sink}
    {limit : Nat} (h : Leaves bytes write)
    (hfirst : (fun out => out.taken.toList.take limit) <$> write (withRoom none) = .ok first) :
    ∃ out, write (withRoom (some limit)) = .ok out ∧ out.taken.toList = first := by
  obtain ⟨⟨full, hfull, rfl⟩, hlimited⟩ := h
  obtain ⟨out, hout, htaken⟩ := hlimited limit
  rw [hfull] at hfirst
  rw [← List.take_eq_take_min] at htaken
  exact ⟨out, hout, htaken.trans (Except.ok.inj hfirst)⟩

theorem ConstructReport.writeText_eq (colors : Bool) (path text name : String) (out : Sink) :
    writeText colors path text name out = out.writeAny <$> ofText colors path text name := by
  rw [writeText, bind_pure_comp]

namespace SpanReport

variable {text : String} {pieces : List String}

/-- The table is offered whole, and an error says that it did not fit. -/
theorem writeText_eq (h : ofText text = .ok pieces) (out : Sink) :
    writeText text out = .ok (out.offer (pieces.flatMap Text.bytes),
      if Sink.fits out.room (pieces.flatMap Text.bytes).length then .ok () else .error .output) := by
  rw [writeText, h]
  simp only [bind, Except.bind, Sink.writeAll_eq]
  cases Sink.fits out.room (pieces.flatMap Text.bytes).length <;> rfl

end SpanReport

namespace Notice

/-- The source that a notice is shown against. -/
def source? : Notice → Option Source
  | diagnostic source _ | diagnostics source _ => some source
  | line _ | count _ _ => none

variable {n : Notice} {ns : List Notice}

theorem write_eq (colors : Bool) (out : Sink) (n : Notice) :
    n.write colors out = out.writeAny <$> n.pieces colors := by
  rw [write, bind_pure_comp]

/-- Writing notices one after the other is writing all their pieces. -/
theorem writeAll_eq (colors : Bool) (out : Sink) (ns : List Notice) :
    writeAll colors out ns = out.writeAny <$> (List.flatten <$> ns.mapM (pieces colors)) := by
  induction ns generalizing out with
  | nil => rfl
  | cons n ns ih =>
    -- A fault of a later notice is the fault of all: nothing was written for the caller to see.
    simp only [writeAll] at ih ⊢
    simp only [List.foldlM_cons, write_eq, bind_map_left, ih, List.mapM_cons, map_bind,
      bind_pure_comp, Functor.map_map, List.flatten_cons, Sink.writeAny_append]

theorem exists_pieces (colors : Bool) (h : ∀ s, n.source? = some s → s.Showable) :
    ∃ pieces, n.pieces colors = .ok pieces := by
  cases n with
  | diagnostic s d => exact Rendering.exists_diagnostic colors (h s rfl) d
  | diagnostics s ds => exact Rendering.exists_diagnostics colors (h s rfl) ds
  | line text => exact ⟨_, rfl⟩
  | count errors warnings => exact ⟨_, rfl⟩

/-- Notices against sources that can be shown are never at fault. -/
theorem exists_allPieces (colors : Bool) (h : ∀ n ∈ ns, ∀ s, n.source? = some s → s.Showable) :
    ∃ all, List.flatten <$> ns.mapM (pieces colors) = .ok all :=
  exists_flatten_mapM fun n hn => exists_pieces colors (h n hn)

/-- Of the notices written one after the other, and of the report on a name, a sink with a limit holds
the first bytes of what one without a limit holds. So it does of the table of spans, which is refused
exactly when it does not fit. -/
theorem limited_sinks_hold_prefixes (colors : Bool) :
    (∀ ns : List Notice, (∀ n ∈ ns, ∀ s, n.source? = some s → s.Showable) →
      ∃ bytes, Sink.Leaves bytes (writeAll colors · ns)) ∧
    ∀ text, (Text.bytes text).length < maxOffset - 1 →
      (∀ path name, ∃ bytes, Sink.Leaves bytes (ConstructReport.writeText colors path text name)) ∧
      ∃ bytes, (∃ out, SpanReport.writeText text (.withRoom none) = .ok (out, .ok ()) ∧
          out.taken.toList = bytes) ∧
        ∀ limit, ∃ out, SpanReport.writeText text (.withRoom (some limit)) =
            .ok (out, if bytes.length ≤ limit then .ok () else .error .output) ∧
          out.taken.toList = bytes.take (min limit bytes.length) := by
  refine ⟨fun ns h => ?notices, fun text h => ⟨fun path name => ?report, ?table⟩⟩
  case notices =>
    obtain ⟨all, hall⟩ := exists_allPieces colors h
    exact ⟨_, .of_writeAny fun out => by rw [writeAll_eq, hall]; rfl⟩
  case report =>
    obtain ⟨-, pieces, -, hpieces, -⟩ :=
      ConstructReport.exists_reports colors path name (Nat.add_lt_of_lt_sub h)
    exact ⟨_, .of_writeAny fun out => by rw [ConstructReport.writeText_eq, hpieces]; rfl⟩
  case table =>
    obtain ⟨-, rows, -, hrows, -⟩ := SpanReport.exists_shown text (Nat.lt_of_lt_pred h)
    have hwrite := SpanReport.writeText_eq hrows
    refine ⟨rows.flatten.flatMap Text.bytes,
      ⟨_, hwrite (.withRoom none), Sink.taken_offer_withRoom none _⟩, fun limit => ?_⟩
    refine ⟨_, (hwrite (.withRoom (some limit))).trans ?_, Sink.taken_offer_limited limit _⟩
    simp only [Sink.withRoom, Sink.fits, decide_eq_true_eq]

/-- Limits in a character of the path, in the path and in a line of the table. -/
theorem limited_sinks_of_wide_path :
    let unclosed : Notice := .diagnostic (.ofText "é" "\x7b") ⟨.unclosedOpen, .error, 0, "m", []⟩
    (∃ out, writeAll true (.withRoom (some 5)) [unclosed, .count 1 0] = .ok out ∧
      out.taken.toList = [0x1b, 0x5b, 0x31, 0x6d, 0xc3]) ∧
    (∃ out, ConstructReport.writeText true "é" "\x7b" "f" (.withRoom (some 3)) = .ok out ∧
      out.taken.toList = [0xc3, 0xa9, 0x3a]) ∧
    ∃ out, SpanReport.writeText "\x7b" (.withRoom (some 4)) = .ok (out, .error .output) ∧
      out.taken.toList = [0x31, 0x3a, 0x31, 0x09] := by
  intro unclosed
  obtain ⟨hnotices, htext⟩ := limited_sinks_hold_prefixes true
  obtain ⟨hreport, bytes, ⟨full, hfull, rfl⟩, hlimited⟩ := htext "\x7b" (by decide)
  obtain ⟨_, hunclosed⟩ := hnotices [unclosed, .count 1 0] (by
    rintro n hn s hs
    obtain rfl | rfl : n = unclosed ∨ n = .count 1 0 := by simpa using hn
    · obtain rfl := Option.some.inj hs
      exact ⟨rfl, by decide⟩
    · cases hs)
  obtain ⟨_, hf⟩ := hreport "é" "f"
  refine ⟨hunclosed.exists_limited rfl, hf.exists_limited rfl, ?_⟩
  obtain rfl : _ = full := congrArg Prod.fst (Except.ok.inj (rfl.symm.trans hfull))
  exact hlimited 4

end Notice

end BraceBalance
