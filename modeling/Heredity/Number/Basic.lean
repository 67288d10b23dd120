import Heredity.Number.Binary64

/-!
# Numbers of both kinds

Integers are unbounded and floating-point numbers are exact, so the two can be compared without any
rounding: both have a `Position` on one line, counted in the units of `Binary64`, and `nan` has
none.  `Number.alike` says that two numbers have the same position, or are the same `nan`; that is
an equivalence by construction, whatever the mixture of kinds.
-/

namespace Heredity

/-- An integer or a floating-point number. -/
inductive Number where
  | int (n : Int)
  | float (x : Binary64)
deriving DecidableEq

namespace Number

/-- The place of a number. -/
def position? : Number → Option Position
  | .int n => some (.units (n * ((1 <<< Binary64.unitBits : Nat) : Int)))
  | .float x => x.position?

/-- The object that tells one `nan` from another. -/
def object : Number → Nat
  | .float (.nan n) => n
  | _ => 0

/-- Whether two numbers are found at the same place: they are numerically equal, or the same object
that is no number. -/
def alike (a b : Number) : Bool := a.position? = b.position? && a.object = b.object

/-- The order of two numbers, unless one of them is `nan`. -/
def compare? (a b : Number) : Option Ordering :=
  match a.position?, b.position? with
  | some p, some q => some (p.compare q)
  | _, _ => none

/-- Whether a number is a zero. -/
def isZero : Number → Bool
  | .int n => n == 0
  | .float x => x.isZero

theorem alike_iff {a b : Number} :
    alike a b = true ↔ a.position? = b.position? ∧ a.object = b.object := by
  simp [alike]

@[simp] theorem alike_self (a : Number) : alike a a = true := alike_iff.2 ⟨rfl, rfl⟩

theorem alike_symm {a b : Number} (h : alike a b = true) : alike b a = true :=
  alike_iff.2 ⟨(alike_iff.1 h).1.symm, (alike_iff.1 h).2.symm⟩

theorem alike_trans {a b c : Number} (h : alike a b = true) (h' : alike b c = true) :
    alike a c = true :=
  alike_iff.2 ⟨(alike_iff.1 h).1.trans (alike_iff.1 h').1,
    (alike_iff.1 h).2.trans (alike_iff.1 h').2⟩

end Number

end Heredity
