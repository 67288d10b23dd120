import Heredity.Value.Equality

/-!
# Order of values

Numbers are ordered on the number line, texts by code points, lists and tuples by the first pair of
unequal items, or by length if there is none.  Nothing else has an order: `Value.order` fails with
`Fault.unsupported`, also when that first pair is of kinds that cannot be compared.  Its answer is
`none` where numbers were compared and one of them is `nan`; then every comparison is false.  Dates
are ordered among dates, times among times, and so on for each line of moments.
-/

namespace Heredity

namespace Value

/-- Compares two texts by their code points. -/
def orderText (a b : String) : Ordering :=
  if a < b then .lt else if a = b then .eq else .gt

/-- Compares a number with a value, which has to be a number, too. -/
def orderNumber (a : Number) (v : Value) : Except Fault (Option Ordering) :=
  match v.number? with
  | some b => .ok (a.compare? b)
  | none => .error .unsupported

mutual

/-- The order of two values. -/
def order : Value → Value → Except Fault (Option Ordering)
  | .bool a, v => orderNumber (.int (if a then 1 else 0)) v
  | .int a, v => orderNumber (.int a) v
  | .float a, v => orderNumber (.float a) v
  | .text a, .text b => .ok (some (orderText a b))
  | .moment a, .moment b => some <$> a.order b
  | .list as, .list bs => orderItems as bs
  | .tuple as, .tuple bs => orderItems as bs
  | _, _ => .error .unsupported
termination_by structural v => v

/-- The order of two lists of items. -/
def orderItems : List Value → List Value → Except Fault (Option Ordering)
  | [], [] => .ok (some .eq)
  | [], _ :: _ => .ok (some .lt)
  | _ :: _, [] => .ok (some .gt)
  | a :: as, b :: bs => if alike a b then orderItems as bs else order a b
termination_by structural vs => vs

end

end Value

end Heredity
