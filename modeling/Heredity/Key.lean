import Heredity.Number.Numeral
import Heredity.Table

/-!
# Routine keys

Within a unit a routine is identified by its name and its arity.  An arity is a number, and a truth
value is accepted where a number is: it counts as zero or one, but it is shown as it was written.

* `Arity.toInt` is the number; two arities agree if their numbers are equal.
* Two keys agree (`==`) if their names are equal and their arities agree.  This is an equivalence,
  but coarser than equality: a table of keys keeps the spelling that arrived first.
* `Key.le` orders keys by name and then by arity.
-/

namespace Heredity

/-- The arity of a routine. -/
inductive Arity where
  /-- Written as a number. -/
  | count (n : Int)
  /-- Written as a truth value, which counts as zero or one. -/
  | flag (b : Bool)
deriving DecidableEq, Inhabited

namespace Arity

/-- The number of an arity. -/
def toInt : Arity → Int
  | .count n => n
  | .flag b => if b then 1 else 0

/-- An arity as it is shown in messages, unless it has too many digits. -/
def render : Arity → Except Fault String
  | .count n => Numeral.ofInt n
  | .flag b => .ok (if b then "True" else "False")

instance : BEq Arity := ⟨fun a b => a.toInt == b.toInt⟩

theorem beq_iff {a b : Arity} : (a == b) = true ↔ a.toInt = b.toInt := by
  show (a.toInt == b.toInt) = true ↔ _
  exact beq_iff_eq

end Arity

/-- The identity of a routine within a unit. -/
structure Key where
  /-- The name of the routine. -/
  name : String
  /-- The number of its parameters. -/
  arity : Arity
deriving DecidableEq, Inhabited

namespace Key

/-- The key of a routine that takes `n` arguments. -/
def ofCount (name : String) (n : Nat) : Key := ⟨name, .count n⟩

/-- A key as it is shown in messages. -/
def render (k : Key) : Except Fault String := do return k.name ++ "/" ++ (← k.arity.render)

instance : BEq Key := ⟨fun k l => k.name == l.name && k.arity == l.arity⟩

/-- Keys agree exactly if the names are equal and the arities are equal as numbers. -/
theorem beq_iff {k l : Key} :
    (k == l) = true ↔ k.name = l.name ∧ k.arity.toInt = l.arity.toInt := by
  show (k.name == l.name && k.arity == l.arity) = true ↔ _
  rw [Bool.and_eq_true, beq_iff_eq, Arity.beq_iff]

instance : EquivBEq Key where
  rfl := beq_iff.2 ⟨rfl, rfl⟩
  symm h := beq_iff.2 ⟨(beq_iff.1 h).1.symm, (beq_iff.1 h).2.symm⟩
  trans h h' :=
    beq_iff.2 ⟨(beq_iff.1 h).1.trans (beq_iff.1 h').1, (beq_iff.1 h).2.trans (beq_iff.1 h').2⟩

/-- The order of keys: by name, then by arity. -/
def le (k l : Key) : Bool :=
  k.name < l.name || (k.name == l.name && k.arity.toInt ≤ l.arity.toInt)

end Key

/-- A set of keys. -/
abbrev KeySet := OrderedSet Key

/-- A set of unit names. -/
abbrev NameSet := OrderedSet String

namespace KeySet

/-- The keys in the order of names and arities. -/
def sorted (s : KeySet) : List Key := s.toList.mergeSort Key.le

end KeySet

namespace NameSet

/-- The names in order. -/
def sorted (s : NameSet) : List String := s.toList.mergeSort (fun a b => a ≤ b)

end NameSet

end Heredity
