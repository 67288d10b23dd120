import Heredity.Number.Numeral

/-!
# Reading text

The readers of the document formats are built from a few steps on a list of characters.

* `Failure` is how reading breaks off: the text is malformed, and why is not recorded, or something
  in it cannot be converted.
* `Parser` takes characters from the front of a text.  It gives a result and leaves the rest, or
  breaks off.
* `peek`, `next`, `accept` and `expect` look at single characters and fixed words, `takeWhile` and
  `skipWhile` at runs of characters.
* `repeatedly` and `iterate` repeat a step until the step says that it is done.  A step that goes on
  has taken at least one character, so the length of the text bounds the number of repetitions.
* `attempt` goes back where the text is not of the form that a parser reads.
* `digitValue` and `valueIn` are the numbers that digits stand for.  Decimal digits that are too
  many are not converted to an integer (`decimalIn`), and reading breaks off there, whatever
  follows.
-/

namespace Heredity.Document

/-- How the reading of a document breaks off. -/
inductive Failure where
  /-- The text is no document. -/
  | malformed
  /-- Something in the text cannot be converted. -/
  | fault (cause : Fault)
deriving DecidableEq

/-- Takes characters from the front of a text. -/
abbrev Parser := StateT (List Char) (Except Failure)

namespace Parser

/-- There is nothing to read here. -/
def fail {α : Type} : Parser α := throw .malformed

/-- The next character, which stays. -/
def peek : Parser (Option Char) := fun cs => .ok (cs.head?, cs)

/-- Takes the next character. -/
def next : Parser Char := fun cs =>
  match cs with
  | [] => .error .malformed
  | c :: cs => .ok (c, cs)

/-- Takes a word if it is next, and says whether it is. -/
def accept (word : String) : Parser Bool := fun cs =>
  if word.toList.isPrefixOf cs then .ok (true, cs.drop word.toList.length) else .ok (false, cs)

/-- Takes a word that must be next. -/
def expect (word : String) : Parser Unit := do
  if ← accept word then return else fail

/-- Takes the characters at the front that satisfy `p`. -/
def takeWhile (p : Char → Bool) : Parser (List Char) := fun cs =>
  .ok (cs.takeWhile p, cs.dropWhile p)

/-- Takes the characters at the front that satisfy `p`, of which there must be one. -/
def takeWhile1 (p : Char → Bool) : Parser (List Char) := do
  match ← takeWhile p with
  | [] => fail
  | cs => return cs

/-- Leaves out the characters at the front that satisfy `p`. -/
def skipWhile (p : Char → Bool) : Parser Unit := fun cs => .ok ((), cs.dropWhile p)

/-- Takes exactly `n` characters that satisfy `p`. -/
def exactly (n : Nat) (p : Char → Bool) : Parser (List Char) := fun cs =>
  let front := cs.take n
  if front.length = n ∧ front.all p then .ok (front, cs.drop n) else .error .malformed

/-- Takes a character that satisfies `p` if it is next. -/
def accept? (p : Char → Bool) : Parser (Option Char) := fun cs =>
  match cs with
  | [] => .ok (none, [])
  | c :: rest => if p c then .ok (some c, rest) else .ok (none, c :: rest)

/-- Repeats a step until it gives nothing, at most `n` times. -/
def repeatUpTo {α : Type} (step : Parser (Option α)) : Nat → Parser (List α)
  | 0 => fail
  | n + 1 => do
    match ← step with
    | none => return []
    | some a => return a :: (← repeatUpTo step n)

/-- Repeats a step until it gives nothing.  Every other repetition must take a character. -/
def repeatedly {α : Type} (step : Parser (Option α)) : Parser (List α) := do
  repeatUpTo step ((← get).length + 1)

/-- Repeats a step on a state until the step says that it is done, at most `n` times. -/
def iterateUpTo {σ : Type} (step : σ → Parser (σ × Bool)) : Nat → σ → Parser σ
  | 0, _ => fail
  | n + 1, s => do
    let (s, done) ← step s
    if done then return s else iterateUpTo step n s

/-- Repeats a step on a state until the step says that it is done.  Every other repetition must take
a character. -/
def iterate {σ : Type} (step : σ → Parser (σ × Bool)) (s : σ) : Parser σ := do
  iterateUpTo step ((← get).length + 1) s

/-- Takes what a parser takes, or nothing where the text is not of its form. -/
def attempt {α : Type} (p : Parser α) : Parser (Option α) := fun cs =>
  match p cs with
  | .ok (a, rest) => .ok (some a, rest)
  | .error .malformed => .ok (none, cs)
  | .error failure => .error failure

/-- The result of a parser that must take the whole text. -/
def parseAll {α : Type} (p : Parser α) (text : List Char) : Except Failure α := do
  let (a, rest) ← p text
  if rest.isEmpty then return a else throw .malformed

end Parser

/-! ### Digits -/

/-- The number that a digit stands for; letters are the digits from ten. -/
def digitValue (c : Char) : Nat :=
  if 'a' ≤ c then c.toNat - 'a'.toNat + 10
  else if 'A' ≤ c then c.toNat - 'A'.toNat + 10
  else c.toNat - '0'.toNat

/-- The number that digits stand for in a base. -/
def valueIn (base : Nat) (digits : List Char) : Nat :=
  digits.foldl (fun n c => base * n + digitValue c) 0

/-- The integer that decimal digits stand for, which must not be too many. -/
def decimalIn (digits : List Char) : Except Failure Nat :=
  if digits.length ≤ Numeral.digitLimit then .ok (valueIn 10 digits)
  else .error (.fault .tooManyDigits)

/-- A digit of base two. -/
def isBinaryDigit (c : Char) : Bool := c = '0' || c = '1'

/-- A digit of base eight. -/
def isOctalDigit (c : Char) : Bool := '0' ≤ c && c ≤ '7'

/-- A digit of base sixteen. -/
def isHexDigit (c : Char) : Bool :=
  c.isDigit || 'a' ≤ c && c ≤ 'f' || 'A' ≤ c && c ≤ 'F'

/-- The character with a code point, if there is one. -/
def charAt? (n : Nat) : Option Char := if n.isValidChar then some (Char.ofNat n) else none

end Heredity.Document
