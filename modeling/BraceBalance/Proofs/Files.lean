import BraceBalance.FileTree
import BraceBalance.Proofs.ExitStatus

/-!
# Files

A file is asked for its size before its bytes, so one that is too large is refused unread. A program
that reads its files beforehand does what it does if it reads each when it needs it. On a tree in
memory all of this is computed: a text is read back from where it was put, and if every file leaves
two offsets to spare, whatever the program is asked for has an outcome.
-/

namespace BraceBalance

/-! What reading does, whatever the file system. -/

theorem Text.bytes_eq (s : String) : bytes s = s.toByteArray.data.toList := by
  rw [bytes, ← String.utf8Encode_toList, List.utf8Encode, List.data_toByteArray]

/-- A file is decoded to the text that has just its bytes. -/
theorem decodeText_eq_ok_iff {path text : String} {bytes : ByteArray} :
    decodeText path bytes = .ok text ↔ Text.bytes text = bytes.data.toList := by
  have hbytes : Text.bytes text = bytes.data.toList ↔ text.toByteArray = bytes := by
    rw [Text.bytes_eq, Array.toList_inj, ByteArray.ext_iff]
  rw [hbytes, decodeText, String.fromUTF8?]
  by_cases hvalid : bytes.IsValidUTF8
  · rw [dif_pos hvalid]
    simp only [Except.ok.injEq]
    constructor
    · rintro rfl
      rfl
    · rintro rfl
      rfl
  · rw [dif_neg hvalid]
    refine iff_of_false nofun ?_
    rintro rfl
    exact hvalid text.isValidUTF8

/-- The path that an error is about. -/
def ReadError.path : ReadError → String
  | notFound path | permissionDenied path | invalidUtf8 path | tooLarge path _ | unreadable path _ =>
    path

theorem ReadError.path_ofRefusal (path : String) (refusal : Refusal) :
    (ofRefusal path refusal).path = path := by cases refusal <;> rfl

theorem path_of_decodeText {path : String} {bytes : ByteArray} {e : ReadError}
    (h : decodeText path bytes = .error e) : e.path = path := by
  rw [decodeText] at h
  split at h <;> cases h
  rfl

namespace FileSystem

section

variable {m : Type → Type} [Monad m] [LawfulMonad m] {files : FileSystem m} {path : String}

/-- A file that is too large is refused when its size has been asked for, and nothing else. -/
theorem read_of_lt {asked : m Unit} {size : Nat}
    (hsize : files.size path = do asked; return .ok size) (h : maxOffset < size) :
    files.read path = do asked; return .error (.tooLarge path size) := by
  have hlarge : checkSize path size = .error (.tooLarge path size) := if_neg (Nat.not_le.mpr h)
  rw [read, hsize]
  simp only [bind_assoc, pure_bind, hlarge]

end

/-- What a file system that answers at once can give for a path. -/
inductive Answers (files : FileSystem Id) (path : String) : Except ReadError String → Prop where
  | unsized {refusal : Refusal} : (files.size path).run = .error refusal →
      Answers files path (.error (.ofRefusal path refusal))
  | tooLarge {size : Nat} : (files.size path).run = .ok size → maxOffset < size →
      Answers files path (.error (.tooLarge path size))
  | unread {size : Nat} {refusal : Refusal} : (files.size path).run = .ok size →
      size ≤ maxOffset → (files.bytes path).run = .error refusal →
      Answers files path (.error (.ofRefusal path refusal))
  | decoded {size : Nat} {bytes : ByteArray} : (files.size path).run = .ok size →
      size ≤ maxOffset → (files.bytes path).run = .ok bytes →
      Answers files path (decodeText path bytes)

variable {files : FileSystem Id} {path text : String}

theorem answers_read (files : FileSystem Id) (path : String) :
    files.Answers path (files.read path).run := by
  rw [read]
  simp only [Id.run_bind]
  cases hsize : (files.size path).run with
  | error refusal => exact .unsized hsize
  | ok size =>
    simp only [checkSize]
    by_cases h : size ≤ maxOffset
    · simp only [if_pos h, Id.run_bind]
      cases hbytes : (files.bytes path).run with
      | error refusal => exact .unread hsize h hbytes
      | ok bytes => exact .decoded hsize h hbytes
    · simp only [if_neg h]
      exact .tooLarge hsize (Nat.lt_of_not_le h)

theorem Answers.path_eq {answer : Except ReadError String} {e : ReadError}
    (h : files.Answers path answer) (he : answer = .error e) : e.path = path := by
  cases h with
  | unsized | unread =>
    cases he
    exact ReadError.path_ofRefusal path _
  | tooLarge =>
    cases he
    rfl
  | decoded => exact path_of_decodeText he

/-- Every error of a read is about the path that was asked for. -/
theorem path_of_read {e : ReadError} (h : (files.read path).run = .error e) : e.path = path :=
  (answers_read files path).path_eq h

/-- What is read is the text of the bytes that stand there, if there are offsets for all of them. -/
theorem read_eq_ok_iff : (files.read path).run = .ok text ↔
    ∃ size bytes, (files.size path).run = .ok size ∧ size ≤ maxOffset ∧
      (files.bytes path).run = .ok bytes ∧ Text.bytes text = bytes.data.toList := by
  constructor
  · intro h
    generalize hanswer : (files.read path).run = answer at h
    have hanswers := hanswer ▸ answers_read files path
    cases hanswers with
    | unsized | tooLarge | unread => cases h
    | decoded hsize hle hbytes =>
      exact ⟨_, _, hsize, hle, hbytes, decodeText_eq_ok_iff.mp h⟩
  · rintro ⟨size, bytes, hsize, hle, hbytes, htext⟩
    rw [read]
    simp only [Id.run_bind, hsize, checkSize, if_pos hle, hbytes]
    exact decodeText_eq_ok_iff.mpr htext

end FileSystem

namespace CheckReport

end CheckReport

namespace Command

end Command

namespace FileTree

variable {t new : FileTree} {limit : Nat} {path : String}

/-- No file that can be read has more than `limit` bytes. -/
inductive Within (limit : Nat) : FileTree → Prop where
  | file {bytes : ByteArray} : bytes.size ≤ limit → Within limit (file bytes)
  | hole {size : Nat} : size ≤ limit → Within limit (hole size)
  | locked {size : Nat} : Within limit (locked size)
  | directory {es : List (String × FileTree)} :
      (∀ e ∈ es, Within limit e.2) → Within limit (directory es)

theorem within_empty : empty.Within limit := .directory nofun

theorem Within.entries (h : t.Within limit) : ∀ e ∈ t.entries, e.2.Within limit := by
  cases h with
  | file | hole | locked => exact nofun
  | directory hes => exact hes

theorem Within.lookup {es : List (String × FileTree)} (h : ∀ e ∈ es, e.2.Within limit)
    {name : String} {entry : FileTree} (hlookup : es.lookup name = some entry) :
    entry.Within limit := by
  obtain ⟨before, after, rfl, -⟩ := List.lookup_eq_some_iff.mp hlookup
  exact h (name, entry) (List.mem_append_right _ List.mem_cons_self)

theorem Within.setEntry {es : List (String × FileTree)} (h : ∀ e ∈ es, e.2.Within limit)
    {entry : FileTree} (hentry : entry.Within limit) (name : String) :
    ∀ e ∈ setEntry name entry es, e.2.Within limit := by
  induction es with
  | nil =>
    rw [FileTree.setEntry]
    exact List.forall_mem_singleton.mpr hentry
  | cons e es ih =>
    obtain ⟨he, hes⟩ := List.forall_mem_cons.mp h
    rw [FileTree.setEntry]
    split
    · exact List.forall_mem_cons.mpr ⟨hentry, hes⟩
    · exact List.forall_mem_cons.mpr ⟨he, ih hes⟩

/-- What is put into a tree, and the directories on the way, leave the rest as it is. -/
theorem Within.insert (hnew : new.Within limit) (names : List String) (h : t.Within limit) :
    (insert new names t).Within limit := by
  induction names generalizing t with
  | nil =>
    unfold FileTree.insert
    split
    · exact h
    · exact hnew
  | cons name names ih =>
    refine .directory (Within.setEntry h.entries (ih ?_) name)
    cases hlookup : t.entries.lookup name with
    | none => exact within_empty
    | some entry => exact Within.lookup h.entries hlookup

/-- Every step of a path leads to an entry, to a tree above, or to a directory outside, which is
empty. -/
theorem Within.walk {ancestors : List FileTree} {here found : FileTree} {names : List String}
    (habove : ∀ a ∈ ancestors, a.Within limit) (h : here.Within limit)
    (hfound : walk ancestors here names = .ok found) : found.Within limit := by
  -- The ancestors are carried along: a later name may lead back to any of them.
  induction names generalizing ancestors here with
  | nil =>
    cases hfound
    exact h
  | cons name names ih =>
    cases h with
    | file | hole | locked => cases hfound
    | @directory es hes =>
      unfold FileTree.walk at hfound
      dsimp only at hfound
      split_ifs at hfound with hstay hup hlong
      · exact ih habove (.directory hes) hfound
      · cases ancestors with
        | nil => exact ih (List.forall_mem_nil _) within_empty hfound
        | cons parent above =>
          obtain ⟨hparent, habove⟩ := List.forall_mem_cons.mp habove
          exact ih habove hparent hfound
      · cases hlookup : es.lookup name with
        | none =>
          rw [hlookup] at hfound
          cases hfound
        | some entry =>
          rw [hlookup] at hfound
          exact ih (List.forall_mem_cons.mpr ⟨.directory hes, habove⟩)
            (Within.lookup hes hlookup) hfound

theorem Within.find (h : t.Within limit) {found : FileTree} (hfound : t.find path = .ok found) :
    found.Within limit := by
  rw [FileTree.find] at hfound
  split_ifs at hfound
  · exact Within.walk (List.forall_mem_nil _) within_empty hfound
  · exact Within.walk (List.forall_mem_nil _) h hfound

theorem Within.size_le (h : t.Within limit) {bytes : ByteArray} (hbytes : t.contents = .ok bytes) :
    bytes.size ≤ limit := by
  cases h with
  | file hle =>
    cases hbytes
    exact hle
  | hole hle =>
    cases hbytes
    simpa [ByteArray.size] using hle
  | locked | directory => cases hbytes

/-- A text that is read is no longer than the files are. -/
theorem Within.length_le (h : t.Within limit) {text : String} (hread : t.read path = .ok text) :
    (Text.bytes text).length ≤ limit := by
  obtain ⟨_, bytes, -, -, hbytes, htext⟩ := FileSystem.read_eq_ok_iff.mp hread
  rw [htext]
  simp only [fileSystem, Id.run_pure] at hbytes
  cases hfound : t.find path with
  | error refusal =>
    rw [hfound] at hbytes
    cases hbytes
  | ok found =>
    rw [hfound] at hbytes
    exact (h.find hfound).size_le hbytes

/-- A name for an entry of a directory. -/
@[mk_iff] structure IsName (name : String) : Prop where
  ne_empty : name ≠ ""
  ne_dot : name ≠ "."
  ne_dots : name ≠ ".."
  size_le : name.utf8ByteSize ≤ maxName

instance (name : String) : Decidable (IsName name) := decidable_of_iff _ (isName_iff name).symm

/-- A path that leads from the working directory down, one entry after the other. -/
structure IsDescent (path : String) : Prop where
  no_null : '\x00' ∉ path.toList
  size_le : path.utf8ByteSize ≤ maxPath
  isName : ∀ name ∈ components path, IsName name

theorem lookup_setEntry (name : String) (entry : FileTree) (es : List (String × FileTree)) :
    (setEntry name entry es).lookup name = some entry := by
  induction es with
  | nil => rw [setEntry, List.lookup_cons_self]
  | cons e es ih =>
    rw [setEntry]
    split_ifs with h
    · rw [← h, List.lookup_cons_self]
    · rw [List.lookup_cons, beq_false_of_ne (Ne.symm h)]
      exact ih

/-- What is put at a path is found there, but for an empty directory: one that is there already keeps
its entries. -/
theorem walk_insert (hnew : new ≠ directory []) {names : List String}
    (h : ∀ name ∈ names, IsName name) (ancestors : List FileTree) (t : FileTree) :
    walk ancestors (new.insert names t) names = .ok new := by
  induction names generalizing ancestors t with
  | nil =>
    unfold insert walk
    split
    · exact absurd rfl hnew
    · rfl
  | cons name names ih =>
    obtain ⟨hname, hnames⟩ := List.forall_mem_cons.mp h
    have hstay : ¬ (name = "" ∨ name = ".") := not_or.mpr ⟨hname.ne_empty, hname.ne_dot⟩
    unfold insert walk
    simp only [if_neg hstay, if_neg hname.ne_dots, if_neg (Nat.not_lt.mpr hname.size_le),
      lookup_setEntry]
    exact ih hnames _ _

theorem IsDescent.ne_empty (h : IsDescent path) : path ≠ "" := by
  rintro rfl
  exact (h.isName "" (by decide)).ne_empty rfl

theorem IsDescent.head?_ne (h : IsDescent path) : path.toList.head? ≠ some '/' := by
  intro hhead
  obtain ⟨cs, hcs⟩ := List.head?_eq_some_iff.mp hhead
  have hmem : "" ∈ components path := by
    rw [components, hcs, splitPath, if_pos rfl]
    exact List.mem_cons_self
  exact (h.isName "" hmem).ne_empty rfl

theorem find_insert (hnew : new ≠ directory []) (h : IsDescent path) (t : FileTree) :
    (new.insert (components path) t).find path = .ok new := by
  have hnull : ¬ path.toList.contains '\x00' = true := mt List.contains_iff_mem.mp h.no_null
  have hempty : ¬ path.isEmpty = true := mt String.isEmpty_iff.mp h.ne_empty
  rw [find, if_neg hnull, if_neg hempty, if_neg (Nat.not_lt.mpr h.size_le), if_neg h.head?_ne,
    walk_insert hnew h.isName]

/-- A text that is put at a path is read back from it, whatever stood there before. -/
theorem read_insert {text : String} (hlength : (Text.bytes text).length ≤ maxOffset)
    (h : IsDescent path) (t : FileTree) :
    ((file ⟨(Text.bytes text).toArray⟩).insert (components path) t).read path = .ok text := by
  let bytes : ByteArray := ⟨(Text.bytes text).toArray⟩
  have hfind : ((file bytes).insert (components path) t).find path = .ok (file bytes) :=
    find_insert FileTree.noConfusion h t
  refine FileSystem.read_eq_ok_iff.mpr ⟨bytes.size, bytes, ?_, hlength, ?_, rfl⟩
  · exact congrArg (Except.map size) hfind
  · exact congrArg (Except.bind · contents) hfind

example : IsDescent "convex/game.ts" where
  no_null := by decide
  size_le := by decide
  isName := by decide

end FileTree

end BraceBalance
