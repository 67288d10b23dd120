import Heredity.Fault
import Heredity.Number.Shortest

/-!
# How numbers are written

`Numeral.Style` holds the decisions of the written form and `Binary64.render` writes a number in a
style; `Numeral.plain` is the style of every number in messages and in converted text: the shortest
digits that read back, positional notation from `10 ^ -4` up to below `10 ^ 16`, a `.0` after whole
numbers, and otherwise an exponent with a sign and at least two digits.

`Binary64.parse?` reads such a text back.

Integers are written with all their digits, and those with more than `Numeral.digitLimit` are not
written at all: `Numeral.ofInt` fails for them.
-/

namespace Heredity

namespace Numeral

/-- The decisions of the written form of a floating-point number. -/
structure Style where
  /-- The least power of ten of the leading digit that is written positionally. -/
  leastPositional : Int
  /-- The least power of ten of the leading digit that is written with an exponent again. -/
  leastScientific : Int
  /-- What follows the digits of a whole number in positional notation. -/
  wholeSuffix : String
  /-- The least number of digits of the exponent. -/
  exponentDigits : Nat
  /-- The text of infinity. -/
  infinity : String
  /-- The text of no number. -/
  nan : String

/-- Positional from `10 ^ -4` to below `10 ^ 16`, whole numbers with `.0`, exponents of two digits
or more. -/
def plain : Style := ⟨-4, 16, ".0", 2, "inf", "nan"⟩

/-- A text of `n` zeros. -/
def zeros (n : Nat) : String := String.ofList (List.replicate n '0')

/-- Digits with a point after the first `n` of them. -/
def pointAfter (n : Nat) (digits : List Char) : String :=
  String.ofList (digits.take n) ++ "." ++ String.ofList (digits.drop n)

/-- The exponent with its sign. -/
def exponentText (style : Style) (e : Int) : String :=
  let digits := toString e.natAbs
  (if e < 0 then "e-" else "e+") ++ zeros (style.exponentDigits - digits.length) ++ digits

/-- A decimal in a style. -/
def render (style : Style) (d : Decimal) : String :=
  let digits := Nat.toDigits 10 d.coefficient
  let lead := d.exponent + digits.length - 1
  if style.leastPositional ≤ lead ∧ lead < style.leastScientific then
    if 0 ≤ d.exponent then
      String.ofList digits ++ zeros d.exponent.toNat ++ style.wholeSuffix
    else if 0 ≤ lead then
      pointAfter (lead.toNat + 1) digits
    else
      "0." ++ zeros ((-lead).toNat - 1) ++ String.ofList digits
  else
    (if digits.length = 1 then String.ofList digits else pointAfter 1 digits) ++
      exponentText style lead

/-! ### Integers -/

/-- The largest number of decimal digits that an integer is written with, and read from. -/
def digitLimit : Nat := 4300

/-- Whether an integer has no more digits than are written. -/
def isWritable (n : Int) : Bool := n.natAbs < Nat.pow 10 digitLimit

/-- The numeral of an integer, unless it has too many digits. -/
def ofInt (n : Int) : Except Fault String :=
  if isWritable n then .ok (toString n) else .error .tooManyDigits

theorem ofInt_of_isWritable {n : Int} (h : isWritable n = true) : ofInt n = .ok (toString n) :=
  if_pos h

theorem ofInt_of_not_isWritable {n : Int} (h : isWritable n = false) :
    ofInt n = .error .tooManyDigits :=
  if_neg (by simp [h])

end Numeral

namespace Binary64

/-- The magnitude of a finite number in a style. -/
def renderMagnitude (style : Numeral.Style) (significand place : Nat) : String :=
  if significand = 0 then "0" ++ style.wholeSuffix
  else Numeral.render style (Decimal.shortest significand place)

/-- A number in a style. -/
def renderIn (style : Numeral.Style) : Binary64 → String
  | .nan _ => style.nan
  | .infinity s => if s then "-" ++ style.infinity else style.infinity
  | .finite s m p => if s then "-" ++ renderMagnitude style m p else renderMagnitude style m p

/-- A number as it is written in messages and converted text. -/
def render (x : Binary64) : String := renderIn Numeral.plain x

/-- The value of a list of decimal digits. -/
def digitsValue (ds : List Char) : Nat :=
  ds.foldl (fun n c => 10 * n + (c.toNat - '0'.toNat)) 0

/-- The digits at the front of a text, and what follows them. -/
def spanDigits (cs : List Char) : List Char × List Char :=
  (cs.takeWhile Char.isDigit, cs.dropWhile Char.isDigit)

/-- The exponent that a numeral ends in: nothing, or a mark, an optional sign and digits. -/
def parseExponent? : List Char → Option Int
  | [] => some 0
  | e :: rest =>
    if e = 'e' ∨ e = 'E' then
      let (negative, ds) := match rest with
        | '-' :: ds => (true, ds)
        | '+' :: ds => (false, ds)
        | ds => (false, ds)
      if ds.isEmpty ∨ ¬ ds.all Char.isDigit then none
      else some (if negative then -(digitsValue ds : Int) else digitsValue ds)
    else none

/-- Reads digits with an optional point and an optional exponent. -/
def parseMagnitude? (negative : Bool) (cs : List Char) : Option Binary64 :=
  let (whole, rest) := spanDigits cs
  let (fraction, rest) := match rest with
    | '.' :: rest => spanDigits rest
    | rest => ([], rest)
  if whole.isEmpty && fraction.isEmpty then none
  else
    (parseExponent? rest).map fun e =>
      ofDecimal negative (digitsValue (whole ++ fraction)) (e - fraction.length)

/-- Reads the text of a number: a numeral with an optional minus sign, `inf`, `-inf` or `nan`. -/
def parse? (text : String) : Option Binary64 :=
  if text = Numeral.plain.nan then some .undefined
  else
    let (negative, cs) := match text.toList with
      | '-' :: cs => (true, cs)
      | '+' :: cs => (false, cs)
      | cs => (false, cs)
    if cs = Numeral.plain.infinity.toList then some (.infinity negative)
    else parseMagnitude? negative cs

end Binary64

end Heredity
