import BraceBalance.CommandLine
import BraceBalance.Proofs.Arguments
import BraceBalance.Proofs.Notices
import BraceBalance.Proofs.Results

/-!
# Exit status

What a command objects to is known before any text is looked at: the arguments it does not take, the
code it does not know and the files it cannot read. The objections are all that goes to the error
stream, and the exit status is 0 exactly when there are none. What is wrong in a text that can be read
is a result, and goes to the other stream.
-/

namespace BraceBalance

/-- The error of an attempt to read; none if it succeeds. -/
def refusal? {α : Type} : Except ReadError α → Option ReadError
  | .ok _ => none
  | .error e => some e

/-- Why files cannot be read, in the order of their paths. -/
def Reader.refusals (read : Reader) (paths : List String) : List ReadError :=
  paths.filterMap fun path => refusal? (read path)

/-- What is written of an error. -/
def CommandError.pieces (e : CommandError) : List String :=
  ["error: ", e.message, "\n"] ++
    match e with
    | .usage _ => ["Run `brace help` for usage.", "\n"]
    | .read _ | .unknownCode _ | .output => []

/-- What is written of files that cannot be read. -/
def ReadError.pieces (errors : List ReadError) : List String :=
  errors.flatMap fun e => (CommandError.read e).pieces

namespace Command

/-- What a command objects to besides files. -/
def objection : Command → List String
  | explain code => if (Code.parse? code).isSome then [] else (CommandError.unknownCode code).pieces
  | unknown name => ["Unknown command: ", name, "\n", "\n"]
  | check _ | find _ | regions _ | help | version => []

/-- What a command objects to: the files that cannot be read, in order, or what it was asked for. -/
def objections (read : Reader) (command : Command) : List String :=
  ReadError.pieces (read.refusals command.paths) ++ command.objection

end Command

/-- An outcome that goes with the objections: they are on the error stream, and the status is 0 if
there are none, and otherwise 1. -/
structure Outcome.Objects (outcome : Outcome) (objections : List String) : Prop where
  status : outcome.status = if objections = [] then 0 else 1
  err : outcome.streams.err.taken.toList = objections.flatMap Text.bytes

/-- Every file that can be read leaves two offsets to spare. -/
def Reader.Small (read : Reader) : Prop :=
  ∀ path text, read path = .ok text → (Text.bytes text).length < maxOffset - 1

theorem Reader.Small.length_add_two_le {read : Reader} (h : read.Small) {path text : String}
    (hread : read path = .ok text) : (Text.bytes text).length + 2 ≤ maxOffset :=
  Nat.add_lt_of_lt_sub (h path text hread)

theorem CommandError.pieces_ne_nil (e : CommandError) : e.pieces ≠ [] :=
  List.cons_ne_nil _ _

theorem ReadError.pieces_append (us vs : List ReadError) :
    pieces (us ++ vs) = pieces us ++ pieces vs := List.flatMap_append

/-- There is something to write of every error. -/
theorem ReadError.pieces_eq_nil_iff (errors : List ReadError) : pieces errors = [] ↔ errors = [] := by
  rw [pieces, List.flatMap_eq_nil_iff]
  constructor
  · intro h
    exact List.eq_nil_iff_forall_not_mem.mpr fun e he => CommandError.pieces_ne_nil _ (h e he)
  · rintro rfl e he
    cases he

namespace CheckReport

variable {read : Reader} {colors : Bool} {paths : List String} {cs : List CheckedPath}

/-- A check of every path, in which just the files are missing that cannot be read. -/
theorem exists_ofPaths (h : read.Small) (colors : Bool) (paths : List String) :
    ∃ cs, ofPaths read colors paths = .ok cs ∧
      List.Forall₂ (fun path c => refusal? (read path) = refusal? c.outcome) paths cs := by
  apply exists_mapM
  intro path _
  rw [ofPath]
  cases hread : read path with
  | error e => exact ⟨⟨path, .error e⟩, rfl, rfl⟩
  | ok text =>
    obtain ⟨checked, hchecked, -⟩ := exists_places colors path (h.length_add_two_le hread)
    refine ⟨⟨path, .ok checked⟩, ?_, rfl⟩
    simp only [hchecked]
    rfl

/-- Why the files of a check could not be read. -/
def refusals (cs : List CheckedPath) : List ReadError := cs.filterMap fun c => refusal? c.outcome

theorem refusals_eq
    (h : List.Forall₂ (fun path c => refusal? (read path) = refusal? c.outcome) paths cs) :
    read.refusals paths = refusals cs := by
  induction h with
  | nil => rfl
  | cons hc _ ih =>
    rw [Reader.refusals, refusals] at ih ⊢
    rw [List.filterMap_cons, List.filterMap_cons, hc, ih]

theorem refusals_append (us vs : List CheckedPath) :
    refusals (us ++ vs) = refusals us ++ refusals vs := List.filterMap_append

theorem errorLine_eq (c : CheckedPath) :
    c.errorLine = (ReadError.pieces (refusals [c])).flatMap Text.bytes := by
  rw [CheckedPath.errorLine, refusals]
  cases hc : c.outcome with
  | ok checked => simp [hc, refusal?, ReadError.pieces]
  | error e =>
    have hpieces : (CommandError.read e).pieces = ["error: ", e.message, "\n"] := rfl
    simp [hc, refusal?, ReadError.pieces, hpieces, Text.bytes_append]

theorem errorLines_eq (cs : List CheckedPath) :
    errorLines cs = (ReadError.pieces (refusals cs)).flatMap Text.bytes := by
  induction cs with
  | nil => rfl
  | cons c cs ih =>
    rw [← List.singleton_append, errorLines_append, errorLines_singleton, errorLine_eq, ih,
      refusals_append, ReadError.pieces_append, List.flatMap_append]

theorem isUnreadable_iff (c : CheckedPath) :
    c.isUnreadable = true ↔ refusal? c.outcome ≠ none := by
  rw [CheckedPath.isUnreadable]
  cases c.outcome <;> simp [refusal?]

/-- Only a file that cannot be read makes the status of a check another than 0. -/
theorem exitStatus_eq (cs : List CheckedPath) :
    (CheckSummary.ofResults cs).exitStatus = if ReadError.pieces (refusals cs) = [] then 0 else 1 := by
  have hany : cs.any CheckedPath.isUnreadable = true ↔ ReadError.pieces (refusals cs) ≠ [] := by
    rw [Ne, ReadError.pieces_eq_nil_iff, refusals, List.filterMap_eq_nil_iff, List.any_eq_true]
    simp only [isUnreadable_iff, not_forall, exists_prop, ne_eq]
  rw [CheckSummary.exitStatus_ofResults]
  simp only [hany, ne_eq, ite_not]

end CheckReport

namespace Command

open CheckReport (fresh)

variable {read : Reader}

theorem objects_fail (streams : Streams) (h : streams.err = .withRoom none) (e : CommandError) :
    (fail streams e).Objects e.pieces := by
  constructor
  · cases e <;> rfl
  · cases e <;> rw [fail, h, Sink.writeAny_eq, Sink.taken_offer_withRoom] <;> rfl

theorem objects_ok (out : Sink) : Outcome.Objects ⟨0, ⟨out, .withRoom none⟩⟩ [] := ⟨rfl, rfl⟩

theorem exists_run_check (h : read.Small) (isTerminal : Bool) (options : CheckOptions) :
    ∃ outcome, (check options).run read isTerminal (fresh none none) = .ok outcome ∧
      outcome.Objects ((check options).objections read) := by
  obtain ⟨cs, hcs, hrefusals⟩ :=
    CheckReport.exists_ofPaths h (options.color.usesColors isTerminal) options.paths
  have hfits : ∀ k, ¬ CheckReport.Refused none none cs k := by
    rintro k ⟨c, -, hc⟩
    simp [Sink.fits] at hc
  have hwrite := CheckReport.write_of_fits (options.color.usesColors isTerminal) hfits
  have hrun : (check options).run read isTerminal (fresh none none) = .ok
      ⟨(CheckSummary.ofResults cs).exitStatus,
        ⟨(Sink.withRoom none).offer (CheckReport.renderings cs ++ CheckReport.closingCount
          (options.color.usesColors isTerminal) (CheckSummary.ofResults cs)),
        (Sink.withRoom none).offer (CheckReport.errorLines cs)⟩⟩ := by
    simp only [run, hcs, bind, Except.bind, hwrite]
    rfl
  refine ⟨_, hrun, ?_⟩
  rw [objections, paths, CheckReport.refusals_eq hrefusals, objection, List.append_nil]
  constructor
  · exact CheckReport.exitStatus_eq cs
  · rw [← CheckReport.errorLines_eq]
    exact Sink.taken_offer_withRoom none _

/-- A command that reads one file, and objects to nothing else. -/
theorem exists_finish {path : String} {written : Except Fault (Sink × Except CommandError Unit)}
    (herror : ∀ e, read path = .error e → ∃ out, written = .ok (out, .error (.read e)))
    (hok : ∀ text, read path = .ok text → ∃ out, written = .ok (out, .ok ())) :
    ∃ result, written = .ok result ∧
      (finish (fresh none none) result).Objects (ReadError.pieces (read.refusals [path]) ++ []) := by
  rw [List.append_nil, Reader.refusals, List.filterMap_cons, List.filterMap_nil]
  cases hread : read path with
  | error e =>
    obtain ⟨out, rfl⟩ := herror e hread
    refine ⟨_, rfl, ?_⟩
    simp only [refusal?, ReadError.pieces, List.flatMap_singleton]
    exact objects_fail ⟨out, .withRoom none⟩ rfl (.read e)
  | ok text =>
    obtain ⟨out, rfl⟩ := hok text hread
    exact ⟨_, rfl, objects_ok out⟩

theorem exists_run_find (h : read.Small) (isTerminal : Bool) (options : FindOptions) :
    ∃ outcome, (find options).run read isTerminal (fresh none none) = .ok outcome ∧
      outcome.Objects ((find options).objections read) := by
  have herror : ∀ e, read options.path = .error e →
      ∃ out, ConstructReport.write read (options.color.usesColors isTerminal) options.path
        options.name (fresh none none).out = .ok (out, .error (.read e)) := by
    intro e hread
    rw [ConstructReport.write, hread]
    exact ⟨_, rfl⟩
  have hok : ∀ text, read options.path = .ok text →
      ∃ out, ConstructReport.write read (options.color.usesColors isTerminal) options.path
        options.name (fresh none none).out = .ok (out, .ok ()) := by
    intro text hread
    obtain ⟨-, pieces, -, hpieces, -⟩ := ConstructReport.exists_reports
      (options.color.usesColors isTerminal) options.path options.name (h.length_add_two_le hread)
    rw [ConstructReport.write, hread]
    simp only [ConstructReport.writeText_eq, hpieces]
    exact ⟨_, rfl⟩
  obtain ⟨result, hwritten, hobjects⟩ := exists_finish herror hok
  refine ⟨_, ?_, hobjects⟩
  simp only [run, hwritten]
  rfl

theorem exists_run_regions (h : read.Small) (isTerminal : Bool) (path : String) :
    ∃ outcome, (regions path).run read isTerminal (fresh none none) = .ok outcome ∧
      outcome.Objects ((regions path).objections read) := by
  have herror : ∀ e, read path = .error e →
      ∃ out, SpanReport.write read path (fresh none none).out = .ok (out, .error (.read e)) := by
    intro e hread
    rw [SpanReport.write, hread]
    exact ⟨_, rfl⟩
  have hok : ∀ text, read path = .ok text →
      ∃ out, SpanReport.write read path (fresh none none).out = .ok (out, .ok ()) := by
    intro text hread
    obtain ⟨-, rows, -, hrows, -⟩ :=
      SpanReport.exists_shown text (Nat.lt_of_succ_lt (h.length_add_two_le hread))
    rw [SpanReport.write, hread]
    exact ⟨_, SpanReport.writeText_eq hrows (fresh none none).out⟩
  obtain ⟨result, hwritten, hobjects⟩ := exists_finish herror hok
  refine ⟨_, ?_, hobjects⟩
  simp only [run, hwritten]
  rfl

theorem objects_finish_explain (code : String) :
    (finish (fresh none none) (CodeReport.write code (fresh none none).out)).Objects
      (explain code).objection := by
  rw [CodeReport.write, objection]
  cases Code.parse? code with
  | none => exact objects_fail _ rfl (.unknownCode code)
  | some c =>
    simp only [Sink.writeAll_eq]
    exact objects_ok _

/-- What a command objects to is all that it writes to the error stream, and the only reason for
another status than 0. -/
theorem exists_run (h : read.Small) (isTerminal : Bool) (command : Command) :
    ∃ outcome, command.run read isTerminal (fresh none none) = .ok outcome ∧
      outcome.Objects (command.objections read) := by
  cases command with
  | check options => exact exists_run_check h isTerminal options
  | find options => exact exists_run_find h isTerminal options
  | regions path => exact exists_run_regions h isTerminal path
  | explain code => exact ⟨_, rfl, objects_finish_explain code⟩
  | help | version => exact ⟨_, rfl, objects_ok _⟩
  | unknown name =>
    refine ⟨_, rfl, rfl, ?_⟩
    simp only [Sink.writeAny_eq]
    exact Sink.taken_offer_withRoom none _

variable {other : Reader} {args : List String}

end Command

end BraceBalance
