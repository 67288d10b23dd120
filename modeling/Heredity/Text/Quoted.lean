import Heredity.Text.Printable

/-!
# Quoted text

How a text is shown inside a message: between quotation marks, with every character that could be
misread escaped.

* `quoteMark` is the single quotation mark, unless the text has single ones and no double one.
* `escape` gives the written form of one character: a backslash before the mark and before a
  backslash, letters for line feed, carriage return and tab, the character itself if it is
  printable, and otherwise its code point in hexadecimal, in the shortest of the forms with two,
  four and eight digits.
* `quote` puts the parts together.
-/

namespace Heredity.Text

/-- The quotation mark that is used by default. -/
def singleMark : Char := '\''

/-- The quotation mark that is used around texts with single quotation marks. -/
def doubleMark : Char := '"'

/-- The mark around a text: the one that needs no escape, if there is one. -/
def quoteMark (cs : List Char) : Char :=
  if cs.contains singleMark && !cs.contains doubleMark then doubleMark else singleMark

/-- A number in hexadecimal with at least `width` digits. -/
def hexDigits (width n : Nat) : List Char :=
  let ds := Nat.toDigits 16 n
  List.replicate (width - ds.length) '0' ++ ds

/-- The code point of a character in the shortest of the three hexadecimal forms. -/
def escapeCode (n : Nat) : List Char :=
  if n < 0x100 then '\\' :: 'x' :: hexDigits 2 n
  else if n < 0x10000 then '\\' :: 'u' :: hexDigits 4 n
  else '\\' :: 'U' :: hexDigits 8 n

/-- The written form of a character between two marks. -/
def escape (mark c : Char) : List Char :=
  if c = mark ∨ c = '\\' then ['\\', c]
  else if c = '\n' then ['\\', 'n']
  else if c = '\r' then ['\\', 'r']
  else if c = '\t' then ['\\', 't']
  else if isPrintable c then [c]
  else escapeCode c.toNat

/-- A text between quotation marks. -/
def quote (text : String) : String :=
  let cs := text.toList
  let mark := quoteMark cs
  String.ofList (mark :: cs.flatMap (escape mark) ++ [mark])

end Heredity.Text
