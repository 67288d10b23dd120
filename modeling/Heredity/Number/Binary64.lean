/-!
# Binary floating-point numbers of 64 bits

The fractional numbers of unit definitions.  A number is not a word of bits here but what the word
means: a finite number is `± significand * 2 ^ place` *units*, where one unit is `2 ^ -1074`, the
least positive number of the format.  So every finite number is a whole number of units, and the
arithmetic below is exact arithmetic on natural numbers and integers followed by **one** rounding.

* `Binary64.ofUnits` is that rounding: to the nearest number, a tie to the even significand, and to
  an infinity beyond the largest finite number.
* `Binary64.add`, `mul`, `div`, `fmod` are exact results, rounded.
* `Binary64.floorDiv` and `Binary64.floorMod` are division and remainder towards the floor: the
  remainder has the sign of the divisor.
* `Binary64.position?` places a number on the line, infinities included; `nan` has no place.
* `Binary64.compare?` compares places; with `nan` there is no answer.
* `Binary64.ofDecimal` reads a decimal numeral.

Two numbers that are `nan` are equal to nothing, but each is an object, and where values are looked
up the same object is found again.  So `nan` comes with a number that tells objects apart.

Numbers made by `ofUnits` are canonical: the significand is below `2 ^ 53`, and at least `2 ^ 52`
unless the place is zero.
-/

namespace Heredity

/-- A place on the number line. -/
inductive Position where
  /-- Below every finite number. -/
  | bottom
  /-- So many units from zero. -/
  | units (n : Int)
  /-- Above every finite number. -/
  | top
deriving DecidableEq

/-- The order of two places. -/
def Position.compare : Position → Position → Ordering
  | .bottom, .bottom => .eq
  | .bottom, _ => .lt
  | _, .bottom => .gt
  | .top, .top => .eq
  | .top, _ => .gt
  | _, .top => .lt
  | .units m, .units n => Ord.compare m n

/-- A binary floating-point number of 64 bits. -/
inductive Binary64 where
  /-- No number, as the object with the given number. -/
  | nan (object : Nat)
  /-- Beyond every finite number. -/
  | infinity (negative : Bool)
  /-- The number `± significand * 2 ^ place * 2 ^ -1074`; zero has a sign, too. -/
  | finite (negative : Bool) (significand place : Nat)
deriving DecidableEq, Inhabited

namespace Binary64

/-- The result of an operation that has none.  What arithmetic gives is no object of the data. -/
def undefined : Binary64 := .nan 0

/-- The number of bits by which one is larger than the unit. -/
def unitBits : Nat := 1074

/-- The largest place of a finite number. -/
def maxPlace : Nat := 2045

/-- The quotient rounded to the nearest whole number, a tie to the even one. -/
def roundHalfEven (num den : Nat) : Nat :=
  let q := num / den
  let r := num % den
  if 2 * r < den ∨ (2 * r = den ∧ q % 2 = 0) then q else q + 1

/-- Rounds `num / den` units to the nearest number of the format. -/
def ofUnits (negative : Bool) (num den : Nat) : Binary64 :=
  let place := Nat.log2 (num / den) - 52
  let m := roundHalfEven num (den <<< place)
  let (m, place) := if m = Nat.pow 2 53 then (Nat.pow 2 52, place + 1) else (m, place)
  if maxPlace < place then .infinity negative else .finite negative m place

/-- Rounds the quotient of two natural numbers. -/
def ofRatio (negative : Bool) (num den : Nat) : Binary64 :=
  ofUnits negative (num <<< unitBits) den

/-- Zero without a minus sign. -/
def zero : Binary64 := .finite false 0 0

/-- A zero with the given sign. -/
def zeroOf (negative : Bool) : Binary64 := .finite negative 0 0

/-- The magnitude of a finite number in units. -/
def magnitude (significand place : Nat) : Nat := significand <<< place

/-- A finite number as a signed whole number of units. -/
def signedUnits (negative : Bool) (significand place : Nat) : Int :=
  if negative then -(magnitude significand place : Int) else (magnitude significand place : Int)

/-- The nearest number to an integer, or nothing if that is beyond the finite numbers. -/
def ofInt? (n : Int) : Option Binary64 :=
  match ofRatio (n < 0) n.natAbs 1 with
  | .infinity _ => none
  | x => some x

/-- The nearest number to the quotient of two integers, or nothing if it is beyond the finite ones.
A zero quotient takes its sign from the divisor, since zero itself counts as not negative. -/
def ofQuotient? (a b : Int) : Option Binary64 :=
  match ofRatio (xor (a < 0) (b < 0)) a.natAbs b.natAbs with
  | .infinity _ => none
  | x => some x

/-! ### Arithmetic -/

/-- The sign bit; `nan` has none that could be seen. -/
def isNegative : Binary64 → Bool
  | .nan _ => false
  | .infinity s => s
  | .finite s _ _ => s

/-- Whether the number is a zero of either sign. -/
def isZero : Binary64 → Bool
  | .finite _ 0 _ => true
  | _ => false

/-- The number with its sign turned. -/
def neg : Binary64 → Binary64
  | .nan _ => undefined
  | .infinity s => .infinity (!s)
  | .finite s m p => .finite (!s) m p

/-- Rounds a signed number of units; `zeroSign` is the sign of a zero result. -/
def ofSignedUnits (zeroSign : Bool) (n : Int) : Binary64 :=
  ofUnits (if n = 0 then zeroSign else n < 0) n.natAbs 1

/-- The sum.  An exact zero is positive unless both terms are negative zeros. -/
def add : Binary64 → Binary64 → Binary64
  | .nan _, _ => undefined
  | _, .nan _ => undefined
  | .infinity s, .infinity t => if s = t then .infinity s else undefined
  | .infinity s, .finite .. => .infinity s
  | .finite .., .infinity t => .infinity t
  | .finite s m p, .finite t n q =>
    ofSignedUnits (s && t) (signedUnits s m p + signedUnits t n q)

/-- The difference. -/
def sub (x y : Binary64) : Binary64 := add x (neg y)

/-- The product. -/
def mul : Binary64 → Binary64 → Binary64
  | .nan _, _ => undefined
  | _, .nan _ => undefined
  | .infinity s, .infinity t => .infinity (xor s t)
  | .infinity s, .finite t n _ => if n = 0 then undefined else .infinity (xor s t)
  | .finite s m _, .infinity t => if m = 0 then undefined else .infinity (xor s t)
  | .finite s m p, .finite t n q =>
    ofUnits (xor s t) ((m * n) <<< (p + q)) (1 <<< unitBits)

/-- The quotient.  A finite number over zero is infinite, zero over zero is `nan`. -/
def div : Binary64 → Binary64 → Binary64
  | .nan _, _ => undefined
  | _, .nan _ => undefined
  | .infinity _, .infinity _ => undefined
  | .infinity s, .finite t _ _ => .infinity (xor s t)
  | .finite s _ _, .infinity t => zeroOf (xor s t)
  | .finite s m p, .finite t n q =>
    if n = 0 then
      if m = 0 then undefined else .infinity (xor s t)
    else
      ofUnits (xor s t) (magnitude m p <<< unitBits) (magnitude n q)

/-- The remainder of the division towards zero: it has the sign of the dividend. -/
def fmod : Binary64 → Binary64 → Binary64
  | .nan _, _ => undefined
  | _, .nan _ => undefined
  | .infinity _, _ => undefined
  | x, .infinity _ => x
  | .finite s m p, .finite _ n q =>
    if n = 0 then undefined else ofUnits s (magnitude m p % magnitude n q) 1

/-- The largest whole number that is not above the given one. -/
def floor : Binary64 → Binary64
  | .finite s m p =>
    if m = 0 then .finite s m p
    else
      let one : Int := ((1 <<< unitBits : Nat) : Int)
      ofSignedUnits s (Int.fdiv (signedUnits s m p) one * one)
  | x => x

/-- The place of a number on the line; `nan` has none. -/
def position? : Binary64 → Option Position
  | .nan _ => none
  | .infinity s => some (if s then .bottom else .top)
  | .finite s m p => some (.units (signedUnits s m p))

/-- Compares exactly; there is no answer if either number is `nan`. -/
def compare? (x y : Binary64) : Option Ordering :=
  match x.position?, y.position? with
  | some p, some q => some (p.compare q)
  | _, _ => none

/-- Whether the number lies below zero. -/
def isBelowZero : Binary64 → Bool
  | .nan _ => false
  | .infinity s => s
  | .finite s m _ => s && m != 0

/-- The number one. -/
def one : Binary64 := ofRatio false 1 1

/-- The number one half. -/
def half : Binary64 := ofRatio false 1 2

/-- The remainder of the division towards the floor: a zero takes the sign of the divisor, and any
other remainder on the wrong side of zero is moved by one divisor. -/
def floorMod (x y : Binary64) : Binary64 :=
  let r := fmod x y
  if r.isZero then zeroOf y.isNegative
  else if y.isBelowZero != r.isBelowZero then add r y
  else r

/-- The quotient towards the floor.  It is computed from the remainder, `(x - r) / y`, then moved to
the whole number nearest to that quotient, so that it agrees with `floorMod`. -/
def floorDiv (x y : Binary64) : Binary64 :=
  let r := fmod x y
  let q := div (sub x r) y
  let q := if !r.isZero && y.isBelowZero != r.isBelowZero then sub q one else q
  if q.isZero then zeroOf (div x y).isNegative
  else
    let f := floor q
    if compare? (sub q f) half = some .gt then add f one else f

/-- The whole part of a finite number, without its fraction. -/
def truncate? : Binary64 → Option Int
  | .finite s m p =>
    let n := magnitude m p >>> unitBits
    some (if s then -(n : Int) else n)
  | _ => none

/-! ### Decimal numerals -/

/-- The number of decimal digits of a natural number; zero has none. -/
def decimalLength (n : Nat) : Nat := if n = 0 then 0 else (Nat.toDigits 10 n).length

/-- Reads `± digits * 10 ^ exponent`.  Numerals far outside the range of the format are decided by
their order of magnitude alone. -/
def ofDecimal (negative : Bool) (digits : Nat) (exponent : Int) : Binary64 :=
  let order := exponent + decimalLength digits
  if digits = 0 ∨ order < -400 then zeroOf negative
  else if 400 < order then .infinity negative
  else
    match exponent with
    | .ofNat e => ofRatio negative (digits * Nat.pow 10 e) 1
    | .negSucc e => ofRatio negative digits (Nat.pow 10 (e + 1))

end Binary64

end Heredity
