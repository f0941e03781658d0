import BraceBalance.ReadError

/-!
# Reading files

Of a path a file system tells the size of what stands there, and the bytes. The size is asked for
first, so that a file which is too large is refused unread.
-/

namespace BraceBalance

/-- Why a file system does not answer. -/
inductive Refusal where
  | notFound
  | permissionDenied
  | path (cause : PathError)
  deriving DecidableEq, Repr

def ReadError.ofRefusal (path : String) : Refusal → ReadError
  | .notFound => .notFound path
  | .permissionDenied => .permissionDenied path
  | .path cause => .unreadable path cause

/-- A file system whose answers come about in `m`. -/
structure FileSystem (m : Type → Type) where
  size : String → m (Except Refusal Nat)
  bytes : String → m (Except Refusal ByteArray)

/-- The text of the file at `path`. -/
def FileSystem.read {m : Type → Type} [Monad m] (files : FileSystem m) (path : String) :
    m (Except ReadError String) := do
  match ← files.size path with
  | .error refusal => return .error (.ofRefusal path refusal)
  | .ok size =>
    match checkSize path size with
    | .error e => return .error e
    | .ok () =>
      match ← files.bytes path with
      | .error refusal => return .error (.ofRefusal path refusal)
      | .ok bytes => return decodeText path bytes

/-- Reads the files at `paths` beforehand. Any other path is not found. -/
def FileSystem.readerOf {m : Type → Type} [Monad m] (files : FileSystem m)
    (paths : List String) : m Reader := do
  let texts ← paths.mapM fun path => do return (path, ← files.read path)
  return fun path => (texts.lookup path).getD (.error (.notFound path))

end BraceBalance
