import Heredity.Document.Parser
import Heredity.Value.Equality

/-!
# TOML

Reads a TOML text as a value.  Decimal integers with too many digits are not converted; each `nan`
is an object of its own.

A document is a list of statements, and each of them may add to tables that earlier ones began, so
the reader keeps a document under construction.

* `Item` is what lies at a key of such a document: a finished value, which nothing may be added to;
  a table; or an array of tables, of which only the last is open.
* A table remembers how it came about (`Opening`): in passing, on the path to another table; by the
  dotted key of an assignment; or by a header of its own.  Only the first two may still be entered
  by a dotted key, and only the first may still get a header.
* `within` follows a path of tables and changes the last; `openTable`, `openArray` and `assign` are
  the three kinds of statements.
-/

namespace Heredity.Document.Toml

open Document.Parser

/-! ### Documents under construction -/

/-- How a table came about. -/
inductive Opening where
  /-- It lies on the path of a header. -/
  | passed
  /-- It lies on the path of a dotted key. -/
  | dotted
  /-- It has a header. -/
  | header
deriving DecidableEq

/-- What lies at a key of a document under construction. -/
inductive Item where
  /-- A finished value. -/
  | value (v : Value)
  /-- A table. -/
  | table (opening : Opening) (entries : List (String × Item))
  /-- An array of tables: the finished ones, and the entries of the last. -/
  | tables (finished : List Item) (last : List (String × Item))

/-- The entries of a table under construction, in order of their first mention. -/
abbrev Entries := List (String × Item)

namespace Item

mutual

/-- The value of an item. -/
def toValue : Item → Value
  | .value v => v
  | .table _ entries => .map (entryValues entries)
  | .tables finished last => .list (values finished ++ [.map (entryValues last)])
termination_by structural item => item

/-- The values of a list of items. -/
def values : List Item → List Value
  | [] => []
  | item :: items => toValue item :: values items
termination_by structural items => items

/-- The entries with their values. -/
def entryValues : List (String × Item) → List (Value × Value)
  | [] => []
  | entry :: entries => entryValue entry :: entryValues entries
termination_by structural entries => entries

/-- An entry with its value. -/
def entryValue : String × Item → Value × Value
  | (key, item) => (.text key, toValue item)
termination_by structural entry => entry

end

end Item

namespace Entries

/-- Changes the item at a key, or adds one. -/
def change (key : String) (f : Option Item → Option Item) : Entries → Option Entries
  | [] => do return [(key, ← f none)]
  | (k, item) :: entries =>
    if k = key then do return (k, ← f (some item)) :: entries
    else do return (k, item) :: (← change key f entries)

/-- Enters the table at an item of the path of a header, which is begun in passing. -/
def pass (f : Entries → Option Entries) : Option Item → Option Item
  | none => do return .table .passed (← f [])
  | some (.table opening entries) => do return .table opening (← f entries)
  | some (.tables finished last) => do return .tables finished (← f last)
  | some (.value _) => none

/-- Enters the table at an item of the path of a dotted key.  One with a header of its own is not
entered. -/
def dot (f : Entries → Option Entries) : Option Item → Option Item
  | none => do return .table .dotted (← f [])
  | some (.table .header _) => none
  | some (.table _ entries) => do return .table .dotted (← f entries)
  | some (.tables ..) => none
  | some (.value _) => none

/-- Follows a path of tables and changes the last one. -/
def within (enter : (Entries → Option Entries) → Option Item → Option Item)
    (f : Entries → Option Entries) : List String → Entries → Option Entries
  | [], entries => f entries
  | key :: path, entries => change key (enter (within enter f path)) entries

/-- Begins the table of a header. -/
def openTable (path : List String) (key : String) : Entries → Option Entries :=
  within pass (change key fun
    | none => some (.table .header [])
    | some (.table .passed entries) => some (.table .header entries)
    | _ => none) path

/-- Begins the next table of an array. -/
def openArray (path : List String) (key : String) : Entries → Option Entries :=
  within pass (change key fun
    | none => some (.tables [] [])
    | some (.tables finished last) => some (.tables (finished ++ [.table .header last]) [])
    | _ => none) path

/-- Gives a key, reached from the table of a header by a dotted path, its value. -/
def assign (header path : List String) (key : String) (v : Value) : Entries → Option Entries :=
  within pass (within dot (change key fun
    | none => some (.value v)
    | some _ => none) path) header

end Entries

/-! ### Space and comments -/

/-- A character between two tokens of a line. -/
def isSpace (c : Char) : Bool := c = ' ' || c = '\t'

/-- A character that may stand in a comment or a text on one line. -/
def isPlain (c : Char) : Bool := (' ' ≤ c && c != '\x7f') || c = '\t'

/-- Leaves out space on a line. -/
def skipSpace : Parser Unit := skipWhile isSpace

/-- Leaves out a comment, if one starts here. -/
def skipComment : Parser Unit := do
  if ← accept "#" then skipWhile isPlain

/-- Leaves out comments, line breaks and space. -/
def skipLines : Parser Unit := do
  let _ ← repeatedly do
    skipWhile fun c => isSpace c || c = '\n'
    if (← peek) = some '#' then do
      skipComment
      match ← peek with
      | none => return none
      | some c => if c = '\n' then return some () else fail
    else return none

/-! ### Texts -/

/-- The character with the code point that `n` digits give. -/
def codePoint (n : Nat) : Parser Char := do
  match charAt? (valueIn 16 (← exactly n isHexDigit)) with
  | some c => return c
  | none => fail

/-- The character that an escape stands for, behind the backslash. -/
def escaped : Parser Char := do
  match ← next with
  | 'b' => return '\x08'
  | 't' => return '\t'
  | 'n' => return '\n'
  | 'f' => return '\x0c'
  | 'r' => return '\r'
  | '"' => return '"'
  | '\\' => return '\\'
  | 'u' => codePoint 4
  | 'U' => codePoint 8
  | _ => fail

/-- The next characters of a text on one line, unless the text ends here. -/
def lineCharacters : Parser (Option (List Char)) := do
  match ← next with
  | '"' => return none
  | '\\' => return some [← escaped]
  | c => if isPlain c then return some [c] else fail

/-- Leaves out the rest of a line behind a backslash and the space that follows, if only space
follows on the line, and says whether that was so. -/
def skipLineEnd : Parser Bool := do
  match ← peek with
  | none => return false
  | some c =>
    if isSpace c || c = '\n' then do
      skipSpace
      match ← peek with
      | none => return true
      | some d =>
        if d = '\n' then do
          skipWhile fun e => isSpace e || e = '\n'
          return true
        else fail
    else return false

/-- Up to two quotation marks that belong to a text although they follow its end mark. -/
def trailingMarks (mark : Char) : Parser (List Char) := do
  match ← accept? (· = mark) with
  | none => return []
  | some _ =>
    match ← accept? (· = mark) with
    | none => return [mark]
    | some _ => return [mark, mark]

/-- The next characters of a text on several lines, unless the text ends here. -/
def blockCharacters : Parser (Option (List Char)) := do
  if ← accept "\"\"\"" then return none
  match ← next with
  | '\\' => if ← skipLineEnd then return some [] else return some [← escaped]
  | c => if isPlain c || c = '\n' then return some [c] else fail

/-- The next character of a text without escapes on several lines, unless the text ends here. -/
def rawBlockCharacter : Parser (Option (List Char)) := do
  if ← accept "'''" then return none
  let c ← next
  if isPlain c || c = '\n' then return some [c] else fail

/-- The next character of a text without escapes on one line, unless the text ends here. -/
def rawCharacter : Parser (Option (List Char)) := do
  match ← next with
  | '\'' => return none
  | c => if isPlain c then return some [c] else fail

/-- The text of the pieces that a step gives, and what the end adds. -/
def textOf (pieces : Parser (Option (List Char))) (ending : Parser (List Char)) :
    Parser String := do
  let body ← repeatedly pieces
  return String.ofList (body.flatten ++ (← ending))

/-- A text on several lines behind its opening mark.  A line break right behind the mark is left
out. -/
def block (pieces : Parser (Option (List Char))) (mark : Char) : Parser String := do
  let _ ← accept "\n"
  textOf pieces (trailingMarks mark)

/-- A text on one line, if one starts here. -/
def lineText? : Parser (Option String) := do
  if ← accept "\"" then return some (← textOf lineCharacters (pure []))
  if ← accept "'" then return some (← textOf rawCharacter (pure []))
  return none

/-- A text, if one starts here. -/
def text? : Parser (Option String) := do
  if ← accept "\"\"\"" then return some (← block blockCharacters '"')
  if ← accept "'''" then return some (← block rawBlockCharacter '\'')
  lineText?

/-! ### Keys -/

/-- A character of a key without quotation marks. -/
def isKeyCharacter (c : Char) : Bool := c.isAlphanum || c = '-' || c = '_'

/-- One part of a key. -/
def keyPart : Parser String := do
  match ← lineText? with
  | some s => return s
  | none => return String.ofList (← takeWhile1 isKeyCharacter)

/-- A key: its parts up to the last, and the last. -/
def key : Parser (List String × String) := do
  let first ← keyPart
  skipSpace
  let rest ← repeatedly do
    if ← accept "." then do
      skipSpace
      let part ← keyPart
      skipSpace
      return some part
    else return none
  let parts := first :: rest
  return (parts.dropLast, parts.getLastD first)

/-! ### Dates and times -/

/-- A number of the given width between two bounds. -/
def number (width least greatest : Nat) : Parser Nat := do
  let n := valueIn 10 (← exactly width Char.isDigit)
  if least ≤ n ∧ n ≤ greatest then return n else fail

/-- A year, a month and a day of the month, which need not exist. -/
def date : Parser (Nat × Nat × Nat) := do
  let year ← number 4 0 9999
  expect "-"
  let month ← number 2 1 12
  expect "-"
  return (year, month, ← number 2 1 31)

/-- The digits behind the point of a second. -/
def fraction : Parser (List Char) := do
  expect "."
  takeWhile1 Char.isDigit

/-- A time of the day, of which microseconds are kept. -/
def time : Parser Clock := do
  let hour ← number 2 0 23
  expect ":"
  let minute ← number 2 0 59
  expect ":"
  let second ← number 2 0 59
  let digits := ((← attempt fraction).getD []).take 6
  let microsecond := valueIn 10 (digits ++ List.replicate (6 - digits.length) '0')
  match Clock.of? hour minute second microsecond with
  | some clock => return clock
  | none => fail

/-- The time that follows a date. -/
def timeOfDate : Parser Clock := do
  match ← accept? fun c => c = 'T' || c = 't' || c = ' ' with
  | some _ => time
  | none => fail

/-- The distance from universal time, in minutes. -/
def ahead : Parser Int := do
  match ← next with
  | 'Z' | 'z' => return 0
  | '+' => minutes
  | '-' => return -(← minutes)
  | _ => fail
where
  /-- Hours and minutes. -/
  minutes : Parser Int := do
    let hours ← number 2 0 23
    expect ":"
    return (hours * 60 + (← number 2 0 59) : Nat)

/-- A date, a time, or both, if one starts here.  A date that does not exist is malformed. -/
def moment? : Parser (Option Moment) := do
  match ← attempt date with
  | none => return (← attempt time).map .time
  | some (year, month, day) =>
    let clock ← attempt timeOfDate
    let ahead ← if clock.isSome then attempt ahead else pure none
    match Day.of? year month day, clock with
    | none, _ => fail
    | some day, none => return some (.date day)
    | some day, some clock => return some (.dateTime day clock ahead)

/-! ### Numbers -/

/-- Digits, between any two of which there may be an underscore. -/
def digits (isDigit : Char → Bool) : Parser (List Char) := do
  let first ← exactly 1 isDigit
  let rest ← repeatedly (attempt do
    let _ ← accept "_"
    exactly 1 isDigit)
  return first ++ rest.flatten

/-- The digits behind the point of a number. -/
def places : Parser (List Char) := do
  expect "."
  digits Char.isDigit

/-- An exponent. -/
def exponent : Parser Int := do
  match ← accept? fun c => c = 'e' || c = 'E' with
  | none => fail
  | some _ =>
    let sign ← accept? fun c => c = '+' || c = '-'
    let n := valueIn 10 (← digits Char.isDigit)
    return if sign = some '-' then -(n : Int) else n

/-- A decimal number behind its sign. -/
def decimal (negative : Bool) : Parser Value := do
  let whole ← if ← accept "0" then pure ['0'] else digits Char.isDigit
  match ← attempt places, ← attempt exponent with
  | none, none =>
    let n ← decimalIn whole
    return .int (if negative then -(n : Int) else n)
  | fraction, exponent =>
    let places := fraction.getD []
    return .float
      (.ofDecimal negative (valueIn 10 (whole ++ places)) (exponent.getD 0 - places.length))

/-- The least number of the object that a `nan` is.  What is left of the text behind it tells it
from the others of the text. -/
def firstNanObject : Nat := 3

/-- A number, an object of its own. -/
def numeral : Parser Value := do
  if ← accept "0x" then return .int (valueIn 16 (← digits isHexDigit))
  if ← accept "0b" then return .int (valueIn 2 (← digits isBinaryDigit))
  if ← accept "0o" then return .int (valueIn 8 (← digits isOctalDigit))
  let sign ← accept? fun c => c = '+' || c = '-'
  let negative := sign = some '-'
  if ← accept "inf" then return .float (.infinity negative)
  if ← accept "nan" then return .float (.nan (firstNanObject + (← get).length))
  decimal negative

/-! ### Values -/

/-- The elements of an array behind its opening bracket. -/
def arrayItems (value : Parser Value) : Parser (List Value) := do
  skipLines
  repeatedly do
    if ← accept "]" then return none
    let v ← value
    skipLines
    if ← accept "," then skipLines
    else if (← peek) ≠ some ']' then fail
    return some v

/-- An assignment: the path of the key, the key and the value. -/
def assignment (value : Parser Value) : Parser (List String × String × Value) := do
  let (path, key) ← key
  expect "="
  skipSpace
  return (path, key, ← value)

/-- Adds the next assignment of an inline table to the earlier ones, and says whether it is the
last. -/
def inlineAssignment (value : Parser Value) (entries : Entries) : Parser (Entries × Bool) := do
  let (path, key, v) ← assignment value
  match Entries.assign [] path key v entries with
  | none => fail
  | some entries =>
    skipSpace
    if ← accept "\x7d" then return (entries, true)
    expect ","
    skipSpace
    return (entries, false)

/-- An inline table behind its opening brace. -/
def inlineTable (value : Parser Value) : Parser Value := do
  skipSpace
  if ← accept "\x7d" then return .map []
  return (Item.table .dotted (← iterate (inlineAssignment value) [])).toValue

/-- A value that is nested less than `n` levels deep. -/
def value : Nat → Parser Value
  | 0 => fail
  | n + 1 => do
    if let some s ← text? then return .text s
    if ← accept "true" then return .bool true
    if ← accept "false" then return .bool false
    if ← accept "[" then return .list (← arrayItems (value n))
    if ← accept "\x7b" then return ← inlineTable (value n)
    match ← moment? with
    | some m => return .moment m
    | none => numeral

/-! ### Documents -/

/-- What has been read of a document. -/
structure State where
  /-- Its entries. -/
  entries : Entries := []
  /-- The header whose table the assignments are about. -/
  header : List String := []

/-- The part of a statement in front of space and a comment. -/
def statement (state : State) : Parser State := do
  match ← peek with
  | none => return state
  | some c =>
    if c = '\n' || c = '#' then return state
    if ← accept "[[" then
      skipSpace
      let (path, key) ← key
      expect "]]"
      match state.entries.openArray path key with
      | some entries => return ⟨entries, path ++ [key]⟩
      | none => fail
    else if ← accept "[" then
      skipSpace
      let (path, key) ← key
      expect "]"
      match state.entries.openTable path key with
      | some entries => return ⟨entries, path ++ [key]⟩
      | none => fail
    else
      let (path, key, v) ← assignment (value ((← get).length + 1))
      match state.entries.assign state.header path key v with
      | some entries => return { state with entries := entries }
      | none => fail

/-- The lines of a document, of which there are at most `n`. -/
def lines (state : State) : Nat → Parser State
  | 0 => fail
  | n + 1 => do
    skipSpace
    let state ← statement state
    skipSpace
    skipComment
    match ← peek with
    | none => return state
    | some _ =>
      expect "\n"
      lines state n

/-- Reads a TOML text, whose lines end in line feeds. -/
def parse (text : String) : Except Failure Value := do
  let cs := text.toList
  let state ← (lines {} (cs.length + 1)).parseAll cs
  return (Item.table .passed state.entries).toValue

end Heredity.Document.Toml
