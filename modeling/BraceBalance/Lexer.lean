import BraceBalance.Region
import BraceBalance.Word

/-!
# The lexer

A byte-at-a-time automaton that says of each byte whether it is a brace that counts. It looks at
the byte, the byte before it and the region it is in, and never ahead. The second byte of a
two-byte sequence (`//`, `/*`, `*/` or the marker that opens a placeholder) is forgotten at once, so
it never starts another sequence: `/*/` leaves the comment open.

Inside a placeholder only braces and the backtick are recognised; quotes and comment openers are
plain code there.
-/

namespace BraceBalance

/-- What a byte means for counting braces. -/
inductive Role where
  | code
  /-- Comment text, literal text or a delimiter. -/
  | inert
  | openBrace
  | closeBrace
  /-- The brace of a placeholder's opening marker. It pairs with `placeholderClose` only. -/
  | placeholderOpen
  | placeholderClose
  deriving DecidableEq, Repr

/-- Whether the byte is a brace that counts. -/
def Role.isStructural : Role → Bool
  | openBrace | closeBrace => true
  | code | inert | placeholderOpen | placeholderClose => false

structure Lexer where
  region : Region
  /-- The byte before; none at the start and right after a two-byte sequence. -/
  last : Option UInt8
  /-- Whether `last` was itself escaped. -/
  lastEscaped : Bool
  deriving DecidableEq, Repr

namespace Lexer

/-- In code, with nothing read. -/
def start : Lexer := ⟨.code, none, false⟩

/-- Whether the next byte is escaped: an escaped backslash escapes nothing. -/
def escapes (s : Lexer) : Bool := s.last == some Byte.backslash && !s.lastEscaped

/-- What one byte does. -/
structure Move where
  role : Role
  region : Region
  /-- Whether the byte completes a two-byte sequence. -/
  completesPair : Bool
  deriving DecidableEq, Repr

/-- A byte that stands for itself alone. -/
def Move.single (role : Role) (region : Region) : Move := ⟨role, region, false⟩

/-- The second byte of a two-byte sequence. -/
def Move.pair (role : Role) (region : Region) : Move := ⟨role, region, true⟩

def moveInCode (last : Option UInt8) (escaped : Bool) (b : UInt8) : Move :=
  if b = Byte.slash ∧ last = some Byte.slash then .pair .inert .lineComment
  else if b = Byte.star ∧ last = some Byte.slash then .pair .inert .blockComment
  else if b = Byte.singleQuote ∧ escaped = false then .single .inert (.quoted .single)
  else if b = Byte.doubleQuote ∧ escaped = false then .single .inert (.quoted .double)
  else if b = Byte.backtick then .single .inert (.template 0)
  else if b = Byte.openBrace then .single .openBrace .code
  else if b = Byte.closeBrace then .single .closeBrace .code
  else .single .code .code

def moveInLineComment (b : UInt8) : Move :=
  .single .inert (if b = Byte.newline then .code else .lineComment)

def moveInBlockComment (last : Option UInt8) (b : UInt8) : Move :=
  if last = some Byte.star ∧ b = Byte.slash then .pair .inert .code
  else .single .inert .blockComment

def moveInQuoted (q : Quote) (escaped : Bool) (b : UInt8) : Move :=
  .single .inert (if b = q.byte ∧ escaped = false then .code else .quoted q)

/-- In the text of a template literal. The dollar of an opening marker must not be escaped. -/
def moveInTemplateText (last : Option UInt8) (lastEscaped escaped : Bool) (b : UInt8) : Move :=
  if b = Byte.backtick ∧ escaped = false then .single .inert .code
  else if b = Byte.openBrace ∧ last = some Byte.dollar ∧ lastEscaped = false then
    .pair .placeholderOpen (.template 1)
  else .single .inert (.template 0)

/-- In a placeholder with `depth + 1` open braces, the marker's included. -/
def moveInPlaceholder (depth : Nat) (escaped : Bool) (b : UInt8) : Move :=
  if escaped = true then .single .code (.template (depth + 1))
  else if b = Byte.backtick then .single .inert .code
  else if b = Byte.openBrace then .single .openBrace (.template (depth + 2))
  else if b = Byte.closeBrace then
    .single (if depth = 0 then .placeholderClose else .closeBrace) (.template depth)
  else .single .code (.template (depth + 1))

def move (s : Lexer) (b : UInt8) : Move :=
  match s.region with
  | .code => moveInCode s.last s.escapes b
  | .lineComment => moveInLineComment b
  | .blockComment => moveInBlockComment s.last b
  | .quoted q => moveInQuoted q s.escapes b
  | .template 0 => moveInTemplateText s.last s.lastEscaped s.escapes b
  | .template (depth + 1) => moveInPlaceholder depth s.escapes b

/-- The lexer after `b`. -/
def step (s : Lexer) (b : UInt8) : Lexer :=
  let m := s.move b
  if m.completesPair then ⟨m.region, none, false⟩ else ⟨m.region, some b, s.escapes⟩

/-- What `b` means to a lexer in state `s`. -/
def role (s : Lexer) (b : UInt8) : Role := (s.move b).role

/-- One byte, with the placeholder depth kept in its word. -/
def feed (s : Lexer) (b : UInt8) : Except Fault (Role × Lexer) :=
  if (s.step b).region.placeholderDepth ≤ maxOffset then .ok (s.role b, s.step b)
  else .error .overflow

/-- The lexer after all of `bytes`. -/
def run (s : Lexer) (bytes : List UInt8) : Except Fault Lexer :=
  bytes.foldlM (fun s b => Prod.snd <$> s.feed b) s

/-- One more byte in a trace, whose entries are kept latest first. -/
def traceStep (acc : List (Role × Region) × Lexer) (b : UInt8) :
    Except Fault (List (Role × Region) × Lexer) := do
  let (role, next) ← acc.2.feed b
  return ((role, next.region) :: acc.1, next)

/-- The role of each byte and the region after it. -/
def trace (s : Lexer) (bytes : List UInt8) : Except Fault (List (Role × Region)) := do
  let acc ← bytes.foldlM traceStep ([], s)
  return acc.1.reverse

@[simp] theorem region_step (s : Lexer) (b : UInt8) : (s.step b).region = (s.move b).region := by
  simp only [step]; split <;> rfl

theorem feed_of_le {s : Lexer} {b : UInt8} (h : (s.step b).region.placeholderDepth ≤ maxOffset) :
    s.feed b = .ok (s.role b, s.step b) := if_pos h

@[simp] theorem run_nil (s : Lexer) : s.run [] = .ok s := rfl

@[simp] theorem run_cons (s : Lexer) (b : UInt8) (bytes : List UInt8) :
    s.run (b :: bytes) = s.feed b >>= fun r => r.2.run bytes := by
  unfold run; cases h : s.feed b <;> simp [h, bind, Except.bind, Functor.map, Except.map]

end Lexer

end BraceBalance
