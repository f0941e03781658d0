import BraceBalance.FileSystem

/-!
# A file tree

A working directory held in memory, read through paths as POSIX resolves them. Of the world above
the working directory it knows only that it is made of directories.
-/

namespace BraceBalance

inductive FileTree where
  | file (bytes : ByteArray)
  /-- A file of which only the size matters. -/
  | hole (size : Nat)
  /-- A file without read permission. -/
  | locked (size : Nat)
  | directory (entries : List (String × FileTree))

namespace FileTree

def empty : FileTree := .directory []

def entries : FileTree → List (String × FileTree)
  | directory es => es
  | file _ | hole _ | locked _ => []

/-- Sets the entry `name` of a directory. -/
def setEntry (name : String) (entry : FileTree) :
    List (String × FileTree) → List (String × FileTree)
  | [] => [(name, entry)]
  | (n, e) :: rest => if n = name then (n, entry) :: rest else (n, e) :: setEntry name entry rest

/-- Puts `new` at a path of names, making the directories on the way. A directory that is already
there keeps its entries. -/
def insert (new : FileTree) : List String → FileTree → FileTree
  | [], old =>
    match new, old with
    | directory [], directory es => directory es
    | _, _ => new
  | name :: names, old =>
    let child := (old.entries.lookup name).getD empty
    directory (setEntry name (insert new names child) old.entries)

/-- The longest name a directory holds, in bytes. -/
def maxName : Nat := 255

/-- The longest path, in bytes. -/
def maxPath : Nat := 4095

/-- Follows the components of a path from `here`, whose ancestors are given nearest first. -/
def walk (ancestors : List FileTree) (here : FileTree) : List String → Except Refusal FileTree
  | [] => .ok here
  | name :: names =>
    match here with
    | file _ | hole _ | locked _ => .error (.path .notDirectory)
    | directory es =>
      if name = "" ∨ name = "." then walk ancestors here names
      else if name = ".." then
        match ancestors with
        | [] => walk [] empty names
        | parent :: above => walk above parent names
      else if maxName < name.utf8ByteSize then .error (.path .nameTooLong)
      else
        match es.lookup name with
        | none => .error .notFound
        | some entry => walk (here :: ancestors) entry names

/-- A path as the names between its slashes, the empty ones included. -/
def splitPath : List Char → List (List Char)
  | [] => [[]]
  | c :: cs =>
    if c = '/' then [] :: splitPath cs
    else match splitPath cs with
      | name :: names => (c :: name) :: names
      | [] => [[c]]

def components (path : String) : List String := (splitPath path.toList).map String.ofList

/-- What stands at a path. An absolute path starts outside the tree. -/
def find (t : FileTree) (path : String) : Except Refusal FileTree :=
  if path.toList.contains '\x00' then .error (.path .nullByte)
  else if path.isEmpty then .error .notFound
  else if maxPath < path.utf8ByteSize then .error (.path .nameTooLong)
  else walk [] (if path.toList.head? = some '/' then empty else t) (components path)

/-- The size of a directory, whatever is in it. -/
def directorySize : Nat := 4096

/-- The size of what stands at a path. Any entry tells it, also one that cannot be read. -/
def size : FileTree → Nat
  | file bytes => bytes.size
  | hole size | locked size => size
  | directory _ => directorySize

def contents : FileTree → Except Refusal ByteArray
  | file bytes => .ok bytes
  | hole size => .ok ⟨Array.replicate size 0⟩
  | locked _ => .error .permissionDenied
  | directory _ => .error (.path .isDirectory)

/-- The tree as a file system, which answers at once. -/
def fileSystem (t : FileTree) : FileSystem Id where
  size path := pure ((t.find path).map size)
  bytes path := pure ((t.find path).bind contents)

def read (t : FileTree) : Reader := fun path => (t.fileSystem.read path).run

end FileTree

end BraceBalance
