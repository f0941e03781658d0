import Mathlib.Algebra.GroupWithZero.Nat
import BraceBalance.Proofs.Sinks
import BraceBalance.Report.Check

/-!
# Writing results

A check writes renderings to one stream and read errors to the other, and each stream may run out of
room on its own. The first result that does not fit where it goes ends the writing, and both streams
are left with a prefix of what was written up to there. When everything fits, the closing count is
written with no regard to whether it fits.
-/

namespace BraceBalance

namespace CheckedPath

/-- What a result writes to the output stream. -/
def rendering (c : CheckedPath) : List UInt8 :=
  match c.outcome with
  | .ok checked => Text.bytes checked.rendered
  | .error _ => []

/-- What a result writes to the error stream. -/
def errorLine (c : CheckedPath) : List UInt8 :=
  match c.outcome with
  | .ok _ => []
  | .error e => Text.bytes ("error: " ++ e.message ++ "\n")

def isUnreadable (c : CheckedPath) : Bool :=
  match c.outcome with
  | .ok _ => false
  | .error _ => true

/-- The diagnostics of a file that could be read. -/
def diagnostics (c : CheckedPath) : List Diagnostic :=
  match c.outcome with
  | .ok checked => checked.diagnostics
  | .error _ => []

end CheckedPath

namespace CheckSummary

/-- The totals over a list of results. -/
def ofResults (cs : List CheckedPath) : CheckSummary :=
  ⟨cs.length, cs.countP CheckedPath.isUnreadable,
    (cs.map fun c => Diagnostic.errorCount c.diagnostics).sum,
    (cs.map fun c => Diagnostic.warningCount c.diagnostics).sum⟩

theorem ofResults_concat (cs : List CheckedPath) (c : CheckedPath) :
    ofResults (cs ++ [c]) = (ofResults cs).add c.outcome := by
  cases h : c.outcome <;>
    simp [ofResults, add, CheckedPath.isUnreadable, CheckedPath.diagnostics, h,
      Diagnostic.errorCount, Diagnostic.warningCount]

/-- Adding further results one by one. -/
theorem foldl_add (us vs : List CheckedPath) :
    vs.foldl (fun totals c => totals.add c.outcome) (ofResults us) = ofResults (us ++ vs) := by
  induction vs generalizing us with
  | nil => rw [List.foldl_nil, List.append_nil]
  | cons c vs ih => rw [List.foldl_cons, ← ofResults_concat, ih, List.append_assoc,
      List.singleton_append]

/-- Only an unreadable file makes the exit status 1. -/
theorem exitStatus_ofResults (cs : List CheckedPath) :
    (ofResults cs).exitStatus = if cs.any CheckedPath.isUnreadable then 1 else 0 := by
  simp only [exitStatus, ofResults, List.countP_pos_iff, List.any_eq_true]

end CheckSummary

namespace CheckReport

open Sink (fits firstBytes)

def renderings (cs : List CheckedPath) : List UInt8 := cs.flatMap CheckedPath.rendering

def errorLines (cs : List CheckedPath) : List UInt8 := cs.flatMap CheckedPath.errorLine

/-- The bytes of the line at the end. -/
def closingCount (colors : Bool) (totals : CheckSummary) : List UInt8 :=
  (Rendering.summary colors totals.errors totals.warnings).flatMap Text.bytes

/-- The `k`-th result does not fit after those before it, in the stream that it goes to. -/
def Refused (outRoom errRoom : Option Nat) (cs : List CheckedPath) (k : Nat) : Prop :=
  ∃ c, cs[k]? = some c ∧
    if c.isUnreadable then fits errRoom (errorLines (cs.take (k + 1))).length = false
    else fits outRoom (renderings (cs.take (k + 1))).length = false

/-- The streams after a list of results was offered to them. -/
def offerAll (streams : Streams) (cs : List CheckedPath) : Streams :=
  ⟨streams.out.offer (renderings cs), streams.err.offer (errorLines cs)⟩

/-- Whether a list of results fits into both streams. -/
def fitAll (streams : Streams) (cs : List CheckedPath) : Bool :=
  fits streams.out.room (renderings cs).length && fits streams.err.room (errorLines cs).length

/-- Two streams that nothing was written to. -/
def fresh (outRoom errRoom : Option Nat) : Streams := ⟨.withRoom outRoom, .withRoom errRoom⟩

variable {streams : Streams} {outRoom errRoom : Option Nat} {cs : List CheckedPath}
  {c : CheckedPath} {k : Nat}

theorem renderings_append (us vs : List CheckedPath) :
    renderings (us ++ vs) = renderings us ++ renderings vs := List.flatMap_append

theorem errorLines_append (us vs : List CheckedPath) :
    errorLines (us ++ vs) = errorLines us ++ errorLines vs := List.flatMap_append

theorem renderings_singleton (c : CheckedPath) : renderings [c] = c.rendering :=
  List.flatMap_singleton ..

theorem errorLines_singleton (c : CheckedPath) : errorLines [c] = c.errorLine :=
  List.flatMap_singleton ..

theorem offerAll_append (streams : Streams) (us vs : List CheckedPath) :
    offerAll streams (us ++ vs) = offerAll (offerAll streams us) vs := by
  simp only [offerAll, renderings_append, errorLines_append, Sink.offer_append]

/-- What fits into both streams, one list after the other, is what fits all at once. -/
theorem fitAll_append (streams : Streams) (us vs : List CheckedPath) :
    fitAll streams (us ++ vs) = (fitAll streams us && fitAll (offerAll streams us) vs) := by
  simp only [fitAll, offerAll, Sink.offer, renderings_append, errorLines_append,
    List.length_append, Sink.fits_add]
  ac_rfl

/-- One result at the front is offered to its stream, and the writing goes on if it fits. -/
theorem writeResults_cons (streams : Streams) (totals : CheckSummary) (c : CheckedPath)
    (cs : List CheckedPath) :
    writeResults streams totals (c :: cs) =
      if fitAll streams [c] then writeResults (offerAll streams [c]) (totals.add c.outcome) cs
      else (offerAll streams [c], .error .output) := by
  rw [writeResults, fitAll, offerAll, renderings_singleton, errorLines_singleton,
    CheckedPath.rendering, CheckedPath.errorLine]
  cases c.outcome with
  | ok checked =>
    simp only [Sink.write_eq, Sink.offer_nil, List.length_nil, Sink.fits_zero, Bool.and_true]
    cases fits streams.out.room (Text.bytes checked.rendered).length <;> rfl
  | error e =>
    have hline : ["error: ", e.message, "\n"].flatMap Text.bytes =
        Text.bytes ("error: " ++ e.message ++ "\n") := by
      simp [Text.bytes_append]
    simp only [Sink.writeAll_eq, hline, Sink.offer_nil, List.length_nil, Sink.fits_zero,
      Bool.true_and]
    cases fits streams.err.room (Text.bytes ("error: " ++ e.message ++ "\n")).length <;> rfl

/-- Results that fit are offered and counted, and the writing goes on with the rest. -/
theorem writeResults_append {us : List CheckedPath} (h : fitAll streams us = true)
    (totals : CheckSummary) (vs : List CheckedPath) :
    writeResults streams totals (us ++ vs) =
      writeResults (offerAll streams us) (us.foldl (fun totals c => totals.add c.outcome) totals)
        vs := by
  induction us generalizing streams totals with
  | nil => simp [offerAll, renderings, errorLines, Sink.offer_nil]
  | cons c us ih =>
    rw [← List.singleton_append, fitAll_append, Bool.and_eq_true] at h
    rw [List.cons_append, writeResults_cons, if_pos h.1, ih h.2, ← offerAll_append]
    rfl

theorem take_succ_of_getElem? (hc : cs[k]? = some c) : cs.take (k + 1) = cs.take k ++ [c] := by
  rw [List.take_add_one, hc, Option.toList_some]

theorem eq_take_append_cons_drop (hc : cs[k]? = some c) :
    cs = cs.take k ++ c :: cs.drop (k + 1) := by
  obtain ⟨hk, rfl⟩ := List.getElem?_eq_some_iff.mp hc
  rw [← List.drop_eq_getElem_cons hk, List.take_append_drop]

/-- Of a result that comes after others that fit, only the stream that it goes to can run out. -/
theorem refused_iff (hc : cs[k]? = some c) (h : fitAll (fresh outRoom errRoom) (cs.take k) = true) :
    Refused outRoom errRoom cs k ↔ fitAll (fresh outRoom errRoom) (cs.take (k + 1)) = false := by
  simp only [fitAll, fresh, Sink.withRoom, Bool.and_eq_true] at h
  simp only [Refused, hc, Option.some.injEq, exists_eq_left', fitAll, fresh, Sink.withRoom,
    take_succ_of_getElem? hc, renderings_append, errorLines_append, renderings_singleton,
    errorLines_singleton, CheckedPath.isUnreadable, CheckedPath.rendering, CheckedPath.errorLine]
  cases c.outcome with
  | ok checked => simp [h.2]
  | error e => simp [h.1]

/-- As long as no result is refused, all of them fit. -/
theorem fitAll_take (h : ∀ j < k, ¬ Refused outRoom errRoom cs j) :
    fitAll (fresh outRoom errRoom) (cs.take k) = true := by
  induction k with
  | zero => simp [fitAll, renderings, errorLines]
  | succ k ih =>
    have hk := ih fun j hj => h j (Nat.lt_succ_of_lt hj)
    cases hc : cs[k]? with
    | none => rwa [List.take_add_one, hc, Option.toList_none, List.append_nil]
    | some c =>
      exact Bool.not_eq_false _ ▸ mt (refused_iff hc hk).mpr (h k (Nat.lt_succ_self k))

theorem fitAll_of_not_refused (h : ∀ k, ¬ Refused outRoom errRoom cs k) :
    fitAll (fresh outRoom errRoom) cs = true := by
  have hfit := fitAll_take (k := cs.length) fun j _ => h j
  rwa [List.take_length] at hfit

/-- The first result that is refused ends the writing, after what fits of it was written. -/
theorem write_of_refused (colors : Bool) (h : Refused outRoom errRoom cs k)
    (hfirst : ∀ j < k, ¬ Refused outRoom errRoom cs j) :
    write (fresh outRoom errRoom) colors cs =
      (⟨(Sink.withRoom outRoom).offer (renderings (cs.take (k + 1))),
        (Sink.withRoom errRoom).offer (errorLines (cs.take (k + 1)))⟩, .error .output) := by
  have hk := fitAll_take hfirst
  obtain ⟨c, hc, -⟩ := id h
  have hno := (refused_iff hc hk).mp h
  have hresults : writeResults (fresh outRoom errRoom) .empty cs =
      (offerAll (fresh outRoom errRoom) (cs.take (k + 1)), .error .output) := by
    rw [take_succ_of_getElem? hc] at hno ⊢
    rw [fitAll_append, hk, Bool.true_and] at hno
    rw [offerAll_append]
    conv => lhs; rw [eq_take_append_cons_drop hc]
    rw [writeResults_append hk, writeResults_cons, hno, if_neg Bool.false_ne_true]
  rw [write, hresults]
  rfl

/-- When no result is refused, all of them are written and counted, and the count is offered. -/
theorem write_of_fits (colors : Bool) (h : ∀ k, ¬ Refused outRoom errRoom cs k) :
    write (fresh outRoom errRoom) colors cs =
      (⟨(Sink.withRoom outRoom).offer (renderings cs ++ closingCount colors (.ofResults cs)),
        (Sink.withRoom errRoom).offer (errorLines cs)⟩, .ok (.ofResults cs)) := by
  have hfit := fitAll_of_not_refused h
  have hresults : writeResults (fresh outRoom errRoom) .empty cs =
      (offerAll (fresh outRoom errRoom) cs, .ok (.ofResults cs)) := by
    rw [← List.append_nil cs, writeResults_append hfit, writeResults, List.append_nil]
    exact congrArg (fun totals => (offerAll (fresh outRoom errRoom) cs, Except.ok totals))
      (CheckSummary.foldl_add [] cs)
  rw [write, hresults, Sink.offer_append]
  simp only [Sink.writeAny_eq, closingCount, offerAll, fresh]

/-- There is a closing count exactly when there is something to count. -/
theorem closingCount_eq_nil_iff (colors : Bool) (totals : CheckSummary) :
    closingCount colors totals = [] ↔ totals.errors = 0 ∧ totals.warnings = 0 := by
  have hline : ∀ pieces : List String, " found\n" ∈ pieces → pieces.flatMap Text.bytes ≠ [] :=
    fun pieces hmem hnil => absurd (List.flatMap_eq_nil_iff.mp hnil _ hmem) (by decide)
  rw [closingCount, Rendering.summary]
  split
  · exact iff_of_false (hline _ (by simp)) (by omega)
  · split
    · exact iff_of_false (hline _ (by simp)) (by omega)
    · exact iff_of_true rfl (by omega)

/-- Writing fails exactly when some result does not fit. Up to the first of them each stream has its
results in order, as much of them as it has room for. If all results fit, they are written in full
and counted, and of the closing count as much as there is still room for. -/
theorem write_stops_at_first_refused (colors : Bool) (outRoom errRoom : Option Nat)
    (cs : List CheckedPath) :
    (∀ k, Refused outRoom errRoom cs k → (∀ j < k, ¬ Refused outRoom errRoom cs j) →
      ∃ streams, write (fresh outRoom errRoom) colors cs = (streams, .error .output) ∧
        streams.out.taken.toList = firstBytes outRoom (renderings (cs.take (k + 1))) ∧
        streams.err.taken.toList = firstBytes errRoom (errorLines (cs.take (k + 1)))) ∧
    ((∀ k, ¬ Refused outRoom errRoom cs k) →
      ∃ streams totals, write (fresh outRoom errRoom) colors cs = (streams, .ok totals) ∧
        totals = .ofResults cs ∧
        totals.exitStatus = (if cs.any CheckedPath.isUnreadable then 1 else 0) ∧
        streams.err.taken.toList = errorLines cs ∧
        streams.out.taken.toList =
          firstBytes outRoom (renderings cs ++ closingCount colors totals) ∧
        (closingCount colors totals = [] ↔ totals.errors = 0 ∧ totals.warnings = 0)) := by
  refine ⟨fun k hk hfirst => ?_, fun hnone => ?_⟩
  · exact ⟨_, write_of_refused colors hk hfirst, Sink.taken_offer_withRoom ..,
      Sink.taken_offer_withRoom ..⟩
  · have hfit := fitAll_of_not_refused hnone
    rw [fitAll, Bool.and_eq_true] at hfit
    refine ⟨_, _, write_of_fits colors hnone, rfl, CheckSummary.exitStatus_ofResults cs, ?_,
      Sink.taken_offer_withRoom .., closingCount_eq_nil_iff colors _⟩
    exact (Sink.taken_offer_withRoom ..).trans (Sink.firstBytes_of_fits hfit.2)

/-- One byte short, the last result is cut off and refused; with a few bytes to spare it is only the
count that is cut off. -/
theorem write_of_missing_and_unclosed :
    let missing : CheckedPath := ⟨"b", .error (.notFound "b")⟩
    let unclosed : CheckedPath :=
      ⟨"a", .ok ⟨⟨1, none, [0], .code⟩, none, [⟨.unclosedOpen, .error, 0, "", []⟩], "a: depth 1\n"⟩⟩
    let cs := [missing, unclosed]
    (∃ streams, write (fresh (some 10) none) false cs = (streams, .error .output) ∧
      streams.out.taken.toList = Text.bytes "a: depth 1" ∧
      streams.err.taken.toList = Text.bytes "error: cannot find file 'b'\n") ∧
    ∃ streams, write (fresh (some 16) none) false cs = (streams, .ok ⟨2, 1, 1, 0⟩) ∧
      streams.out.taken.toList = Text.bytes "a: depth 1\nerror" ∧
      streams.err.taken.toList = Text.bytes "error: cannot find file 'b'\n" := by
  intro missing unclosed cs
  constructor
  · have hfirst : ∀ j < 1, ¬ Refused (some 10) none cs j := by
      rintro j hj ⟨c, hc, h⟩
      obtain rfl : j = 0 := by omega
      cases hc
      revert h
      decide
    have hrefused : Refused (some 10) none cs 1 := ⟨unclosed, rfl, by decide⟩
    obtain ⟨streams, hw, hout, herr⟩ :=
      (write_stops_at_first_refused false (some 10) none cs).1 1 hrefused hfirst
    exact ⟨streams, hw, hout.trans (by decide), herr.trans (by decide)⟩
  · have hnone : ∀ k, ¬ Refused (some 16) none cs k := by
      rintro (_ | _ | k) ⟨c, hc, h⟩
      · cases hc; revert h; decide
      · cases hc; revert h; decide
      · cases hc
    obtain ⟨streams, totals, hw, ht, -, herr, hout, -⟩ :=
      (write_stops_at_first_refused false (some 16) none cs).2 hnone
    subst ht
    exact ⟨streams, hw, hout.trans (by decide), herr.trans (by decide)⟩

end CheckReport

end BraceBalance
