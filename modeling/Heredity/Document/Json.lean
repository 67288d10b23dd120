import Heredity.Document.Parser
import Heredity.Value.Equality

/-!
# JSON

Reads a JSON text as a value.

* Objects become maps.  A key that is repeated keeps its first place and takes its last value.
* A number without fraction and exponent is an integer, and one with too many digits is not
  converted.  Every other number is rounded to a floating-point number, and one beyond the largest
  is infinite.
* Beyond the standard, `NaN`, `Infinity` and `-Infinity` are numbers.  All `NaN` are one object.
* Two escapes of surrogates stand for one character.  An escaped surrogate on its own may stand in a
  text as well, but such a text is no value of this library.  A control character that is not
  escaped is refused.

Whether a text is a JSON text does not depend on what it stands for, so it is read as `Data` first,
where a text is a list of code points, and converted then.
-/

namespace Heredity.Document.Json

open Document.Parser

/-! ### Data -/

/-- What a JSON text stands for. -/
inductive Data where
  /-- Nothing, a truth value or a number. -/
  | scalar (v : Value)
  /-- A text, as code points. -/
  | text (codes : List Nat)
  /-- An array. -/
  | list (items : List Data)
  /-- An object, whose keys are distinct. -/
  | object (entries : List (List Nat × Data))

namespace Data

/-- The text with the given code points, if there is one. -/
def textOf (codes : List Nat) : Except Failure Value :=
  match codes.mapM charAt? with
  | some cs => .ok (.text (String.ofList cs))
  | none => .error (.fault .unrepresented)

mutual

/-- The value of data. -/
def toValue : Data → Except Failure Value
  | .scalar v => .ok v
  | .text codes => textOf codes
  | .list items => do return .list (← values items)
  | .object entries => do return .map (← entryValues entries)
termination_by structural data => data

/-- The values of a list of data. -/
def values : List Data → Except Failure (List Value)
  | [] => .ok []
  | item :: items => do return (← toValue item) :: (← values items)
termination_by structural items => items

/-- The entries with their values. -/
def entryValues : List (List Nat × Data) → Except Failure (List (Value × Value))
  | [] => .ok []
  | entry :: entries => do return (← entryValue entry) :: (← entryValues entries)
termination_by structural entries => entries

/-- An entry with its value. -/
def entryValue : List Nat × Data → Except Failure (Value × Value)
  | (key, item) => do return (← textOf key, ← toValue item)
termination_by structural entry => entry

end

end Data

/-! ### Texts -/

/-- A character between two tokens. -/
def isSpace (c : Char) : Bool := c = ' ' || c = '\t' || c = '\n' || c = '\r'

/-- Leaves out the space before a token. -/
def skipSpace : Parser Unit := skipWhile isSpace

/-- The code unit behind the letter of a numeric escape. -/
def codeUnit : Parser Nat := do return valueIn 16 (← exactly 4 isHexDigit)

/-- The code point of a numeric escape, which takes the following escape with it if the two are a
pair of surrogates. -/
def codePoint : Parser Nat := do
  let unit ← codeUnit
  if 0xD800 ≤ unit ∧ unit < 0xDC00 then
    let rest ← get
    if ← accept "\\u" then
      -- What follows must be an escape, but it is read again unless it is the second of the pair.
      let low ← codeUnit
      if 0xDC00 ≤ low ∧ low < 0xE000 then
        return 0x10000 + (unit - 0xD800) * 0x400 + (low - 0xDC00)
      set rest
  return unit

/-- The code point that an escape stands for, behind the backslash. -/
def escaped : Parser Nat := do
  match ← next with
  | '"' => return '"'.toNat
  | '\\' => return '\\'.toNat
  | '/' => return '/'.toNat
  | 'b' => return 0x08
  | 'f' => return 0x0c
  | 'n' => return '\n'.toNat
  | 'r' => return '\r'.toNat
  | 't' => return '\t'.toNat
  | 'u' => codePoint
  | _ => fail

/-- The next code point of a text, unless the text ends here. -/
def character : Parser (Option Nat) := do
  match ← next with
  | '"' => return none
  | '\\' => return some (← escaped)
  | c => if c < ' ' then fail else return some c.toNat

/-- A text behind its opening quotation mark. -/
def textBody : Parser (List Nat) := repeatedly character

/-! ### Numbers -/

/-- The whole part of a number: a single zero, or digits that do not start with one. -/
def wholePart : Parser (List Char) := do
  if ← accept "0" then return ['0'] else takeWhile1 Char.isDigit

/-- The digits behind the point. -/
def fraction : Parser (List Char) := do
  expect "."
  takeWhile1 Char.isDigit

/-- An exponent. -/
def exponent : Parser Int := do
  match ← accept? fun c => c = 'e' || c = 'E' with
  | none => fail
  | some _ =>
    let sign ← accept? fun c => c = '+' || c = '-'
    let n := valueIn 10 (← takeWhile1 Char.isDigit)
    return if sign = some '-' then -(n : Int) else n

/-- The number that is written with the given parts. -/
def numberOf (negative : Bool) (whole : List Char) (fraction : Option (List Char))
    (exponent : Option Int) : Except Failure Value :=
  match fraction, exponent with
  | none, none => do
    let n ← decimalIn whole
    return .int (if negative then -(n : Int) else n)
  | fraction, exponent =>
    let digits := fraction.getD []
    .ok (.float
      (.ofDecimal negative (valueIn 10 (whole ++ digits)) (exponent.getD 0 - digits.length)))

/-- A number. -/
def number : Parser Value := do
  let negative ← accept "-"
  if ← accept "Infinity" then return .float (.infinity negative)
  numberOf negative (← wholePart) (← attempt fraction) (← attempt exponent)

/-! ### Values -/

/-- What stands between an opening bracket and the closing one: elements with commas in between. -/
def elements {α : Type} (element : Parser α) (closing : String) : Parser (List α) := do
  skipSpace
  if ← accept closing then return []
  let first ← element
  let rest ← repeatedly do
    skipSpace
    if ← accept closing then return none
    expect ","
    skipSpace
    return some (← element)
  return first :: rest

/-- A key with the data that belong to it. -/
def entry (data : Parser Data) : Parser (List Nat × Data) := do
  expect "\""
  let key ← textBody
  skipSpace
  expect ":"
  skipSpace
  return (key, ← data)

/-- The one object that all `NaN` are. -/
def nanObject : Nat := 1

/-- Data that are nested less than `n` levels deep. -/
def data : Nat → Parser Data
  | 0 => fail
  | n + 1 => do
    if ← accept "\"" then return .text (← textBody)
    if ← accept "\x7b" then
      return .object (Table.ofList (← elements (entry (data n)) "\x7d")).entries
    if ← accept "[" then return .list (← elements (data n) "]")
    if ← accept "null" then return .scalar .null
    if ← accept "true" then return .scalar (.bool true)
    if ← accept "false" then return .scalar (.bool false)
    if ← accept "NaN" then return .scalar (.float (.nan nanObject))
    return .scalar (← number)

/-- A document: data with space around them. -/
def document : Parser Data := do
  skipSpace
  let d ← data ((← get).length + 1)
  skipSpace
  return d

/-- Reads a JSON text. -/
def parse (text : String) : Except Failure Value := do
  (← document.parseAll text.toList).toValue

end Heredity.Document.Json
