import Heredity.Document.Yaml.Character

/-!
# Places in a YAML text

In YAML the column of a character has a meaning, so whoever reads the text keeps count.

* `Cursor` is a place: what is left of the text, how many characters and lines have gone by, and the
  column.
* `Scan` reads at a cursor and may fail.
* `lineBreak?` takes a line break, `atDocumentMark` recognizes the marks between documents.
* `fold` is what remains of the breaks between two lines of a scalar that are joined: one break is a
  space, of several the first is left out.
-/

namespace Heredity.Document.Yaml

/-- A place in a text. -/
structure Cursor where
  /-- What is left of the text. -/
  rest : List Char
  /-- The number of characters before the place. -/
  index : Nat := 0
  /-- The number of line breaks before the place. -/
  line : Nat := 0
  /-- The number of characters before the place on its line. -/
  column : Nat := 0

namespace Cursor

/-- The place behind the next character. -/
def step (c : Cursor) : Cursor :=
  match c.rest with
  | [] => c
  | d :: rest =>
    if isBreak d then ⟨rest, c.index + 1, c.line + 1, 0⟩
    else if d = byteOrderMark then ⟨rest, c.index + 1, c.line, c.column⟩
    else ⟨rest, c.index + 1, c.line, c.column + 1⟩

/-- The place behind the next `n` characters. -/
def advance : Nat → Cursor → Cursor
  | 0, c => c
  | n + 1, c => advance n c.step

/-- Whether a mark between documents is next: three dashes or three dots, and then space. -/
def atDocumentMark (c : Cursor) : Bool :=
  (c.rest.take 3 = ['-', '-', '-'] || c.rest.take 3 = ['.', '.', '.']) &&
    isBlankOrEnd (c.rest.drop 3).head?

end Cursor

/-- Reads at a cursor. -/
abbrev Scan := StateT Cursor (Except Failure)

namespace Scan

/-- The text is malformed here. -/
def fail {α : Type} : Scan α := throw .malformed

/-- The number of characters that are left, and one more: a bound for loops that take a character
each time. -/
def bound : Scan Nat := do return (← get).rest.length + 1

/-- The next character, which stays. -/
def peek : Scan (Option Char) := do return (← get).rest.head?

/-- Takes `n` characters. -/
def skip (n : Nat) : Scan Unit := modify (Cursor.advance n)

/-- Takes the characters at the front that satisfy `p`. -/
def takeWhile (p : Char → Bool) : Scan (List Char) := do
  let front := (← get).rest.takeWhile p
  skip front.length
  return front

/-- Leaves out the characters at the front that satisfy `p`. -/
def skipWhile (p : Char → Bool) : Scan Unit := do
  let _ ← takeWhile p

/-- Takes exactly `n` characters that satisfy `p`. -/
def exactly (n : Nat) (p : Char → Bool) : Scan (List Char) := do
  let front := (← get).rest.take n
  if front.length = n ∧ front.all p then
    skip n
    return front
  else fail

/-- Takes a character if it is next, and says whether it is. -/
def accept (c : Char) : Scan Bool := do
  if (← peek) = some c then
    skip 1
    return true
  else return false

/-- Requires something of the next character, which stays. -/
def require (p : Option Char → Bool) : Scan Unit := do
  if p (← peek) then return else fail

/-- Takes a line break if one is next.  All but the separators are line feeds. -/
def lineBreak? : Scan (Option Char) := do
  match ← peek with
  | none => return none
  | some c =>
    if isBreak c then
      skip 1
      return some (if isSeparator c then c else '\n')
    else return none

/-- Leaves out the end of a line, which may hold a comment. -/
def skipLineEnd : Scan Unit := do
  skipWhile (· = ' ')
  if (← peek) = some '#' then skipWhile (!isBreak ·)
  require isLineEnd
  let _ ← lineBreak?

end Scan

/-- What remains of a line break and the further breaks behind it between two joined lines. -/
def fold (first : Char) (further : List Char) : List Char :=
  if first ≠ '\n' then first :: further
  else if further.isEmpty then [' ']
  else further

end Heredity.Document.Yaml
