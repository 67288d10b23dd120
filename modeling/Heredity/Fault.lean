/-!
# Faults

The ways in which an operation on data can fail.  A fault has a kind but no text.
-/

namespace Heredity

/-- Why an operation on values fails. -/
inductive Fault where
  /-- Too many or too few operands, or operands of kinds that the operation does not take. -/
  | unsupported
  /-- The divisor is zero. -/
  | divisionByZero
  /-- The result, or an operand on the way to it, has no representation. -/
  | overflow
  /-- The result would be larger than any memory. -/
  | outOfMemory
  /-- The index is outside the sequence. -/
  | outOfRange
  /-- The association has no such key. -/
  | missingKey
  /-- A text or number does not have the form that is needed. -/
  | malformed
  /-- An integer has more digits than are written or read. -/
  | tooManyDigits
  /-- The result is data of a kind that is not among the values of this library. -/
  | unrepresented
deriving DecidableEq

end Heredity
