import Heredity.Number.Binary64

/-!
# The shortest decimal that reads back

A number is written with the fewest decimal digits that are still read as the same number, and of
those the nearest.  The numbers that are read as a given one form an interval around it, its ends
included exactly if the significand is even, because a tie is rounded to the even significand.

* `Decimal` is a coefficient times a power of ten.
* `Decimal.reads` tests whether a decimal lies in the interval.
* `Decimal.shortest` tries one digit, two digits, … seventeen digits.  On each grid only the two
  neighbours of the number are tested: if any decimal of the grid lies in the interval, so does one
  of them.
-/

namespace Heredity

/-- The number `coefficient * 10 ^ exponent`. -/
structure Decimal where
  /-- The digits, as a natural number. -/
  coefficient : Nat
  /-- The power of ten. -/
  exponent : Int
deriving DecidableEq

namespace Decimal

/-- The numerator and the denominator of a decimal. -/
def ratio (d : Decimal) : Nat × Nat :=
  match d.exponent with
  | .ofNat e => (d.coefficient * Nat.pow 10 e, 1)
  | .negSucc e => (d.coefficient, Nat.pow 10 (e + 1))

/-- Whether a decimal is read as `significand * 2 ^ place` units.  All sides are multiplied by four
units, so that the ends of the interval are whole numbers.  Below a power of two the neighbours are
only half as far apart. -/
def reads (significand place : Nat) (d : Decimal) : Bool :=
  let mid := 4 * Binary64.magnitude significand place
  let above := 2 <<< place
  let below := if significand = Nat.pow 2 52 ∧ 0 < place then 1 <<< place else 2 <<< place
  let (num, den) := d.ratio
  let x := (4 * num) <<< Binary64.unitBits
  if significand % 2 = 0 then
    (mid - below) * den ≤ x && x ≤ (mid + above) * den
  else
    (mid - below) * den < x && x < (mid + above) * den

/-- The power of ten of the leading digit of `units` units, which must not be zero. -/
def leadingExponent (units : Nat) : Int :=
  (Binary64.decimalLength ((units * Nat.pow 10 400) >>> Binary64.unitBits) : Int) - 401

/-- The largest multiple of `10 ^ k` that is not above `units` units, as a coefficient. -/
def below (units : Nat) (k : Int) : Nat :=
  match k with
  | .ofNat e => (units / Nat.pow 10 e) >>> Binary64.unitBits
  | .negSucc e => (units * Nat.pow 10 (e + 1)) >>> Binary64.unitBits

/-- The distance between a decimal and `units` units, times the decimal's denominator. -/
def distance (units : Nat) (d : Decimal) : Nat :=
  let (num, den) := d.ratio
  (((num <<< Binary64.unitBits : Nat) : Int) - ((units * den : Nat) : Int)).natAbs

/-- The decimal with `digits` digits that is read as the number and is nearest to it, if there is
one. -/
def onGrid? (significand place digits : Nat) : Option Decimal :=
  let units := Binary64.magnitude significand place
  let k := leadingExponent units + 1 - digits
  let a := below units k
  let lo : Decimal := ⟨a, k⟩
  let hi : Decimal := ⟨a + 1, k⟩
  match reads significand place lo, reads significand place hi with
  | true, false => some lo
  | false, true => some hi
  | false, false => none
  | true, true =>
    let dlo := distance units lo
    let dhi := distance units hi
    if dlo < dhi ∨ (dlo = dhi ∧ a % 2 = 0) then some lo else some hi

/-- Drops the zeros at the end of a coefficient, at most `fuel` of them. -/
def stripZeros : Nat → Decimal → Decimal
  | 0, d => d
  | fuel + 1, d =>
    if d.coefficient ≠ 0 ∧ d.coefficient % 10 = 0 then
      stripZeros fuel ⟨d.coefficient / 10, d.exponent + 1⟩
    else d

/-- The first hit among the grids of one digit, two digits, and so on up to seventeen, which always
suffice. -/
def shortest (significand place : Nat) : Decimal :=
  match (List.range 17).findSome? (fun n => onGrid? significand place (n + 1)) with
  | some d => stripZeros 20 d
  | none => ⟨0, 0⟩

end Decimal

end Heredity
