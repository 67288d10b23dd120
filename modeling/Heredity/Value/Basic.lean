import Heredity.Number.Basic
import Heredity.Table
import Heredity.Value.Moment

/-!
# Data values

What routines compute with, what literals hold and what unit definitions are written in: one type of
dynamic values.

* `Value` has scalars, lists and tuples, maps, and records of a unit (`Value.struct`).  Scalars are
  nothing, truth values, numbers, texts, and dates and times.
* `Value.kind` is the kind of a value; two kinds are never the same, so `true` and `1` differ in
  kind although they are equal as numbers.
* `Value.isTruthy` decides conditions: nothing, zero and everything empty is false.
* `Value.number?`, `Value.elements?`, `Value.entries?` are the three ways of looking at a value:
  as a number, as a sequence, as an association.
* `Value.parts` are all the values that a value holds, itself included.

The entries of maps and records are kept in order.
-/

namespace Heredity

/-- A data value. -/
inductive Value where
  /-- The value that stands for nothing. -/
  | null
  /-- A truth value, which is also the number zero or one. -/
  | bool (b : Bool)
  /-- An integer without bounds. -/
  | int (n : Int)
  /-- A floating-point number. -/
  | float (x : Binary64)
  /-- A text. -/
  | text (s : String)
  /-- A date or a time. -/
  | moment (m : Moment)
  /-- A list. -/
  | list (items : List Value)
  /-- A tuple, which never equals a list. -/
  | tuple (items : List Value)
  /-- An association of values with values, in order of insertion. -/
  | map (entries : List (Value × Value))
  /-- A record of a unit: its fields with their values. -/
  | struct (unit : String) (fields : List (Value × Value))
deriving Inhabited

/-- The kinds of values. -/
inductive Kind where
  | null | bool | int | float | text | date | time | dateTime | list | tuple | map | struct
deriving DecidableEq

/-- The name of a kind in messages. -/
def Kind.label : Kind → String
  | .null => "NoneType"
  | .bool => "bool"
  | .int => "int"
  | .float => "float"
  | .text => "str"
  | .date => "date"
  | .time => "time"
  | .dateTime => "datetime"
  | .list => "list"
  | .tuple => "tuple"
  | .map => "dict"
  | .struct => "Struct"

namespace Value

/-- The kind of a value. -/
def kind : Value → Kind
  | .null => .null
  | .bool _ => .bool
  | .int _ => .int
  | .float _ => .float
  | .text _ => .text
  | .moment (.date _) => .date
  | .moment (.time _) => .time
  | .moment (.dateTime ..) => .dateTime
  | .list _ => .list
  | .tuple _ => .tuple
  | .map _ => .map
  | .struct .. => .struct

/-- Whether a value counts as true in a condition. -/
def isTruthy : Value → Bool
  | .null => false
  | .bool b => b
  | .int n => n != 0
  | .float x => !x.isZero
  | .text s => s != ""
  | .moment _ => true
  | .list items => !items.isEmpty
  | .tuple items => !items.isEmpty
  | .map entries => !entries.isEmpty
  | .struct _ fields => !fields.isEmpty

/-- The integer of a value: an integer itself, or a truth value as zero or one. -/
def int? : Value → Option Int
  | .bool b => some (if b then 1 else 0)
  | .int n => some n
  | _ => none

/-- The number of a value; truth values are numbers. -/
def number? : Value → Option Number
  | .bool b => some (.int (if b then 1 else 0))
  | .int n => some (.int n)
  | .float x => some (.float x)
  | _ => none

/-- The text of a value, if it is one. -/
def text? : Value → Option String
  | .text s => some s
  | _ => none

/-- The entries of a map or the fields of a record. -/
def entries? : Value → Option (List (Value × Value))
  | .map entries => some entries
  | .struct _ fields => some fields
  | _ => none

/-- What iterating over a value gives: characters, items or keys. -/
def elements? : Value → Option (List Value)
  | .text s => some (s.toList.map fun c => .text c.toString)
  | .list items => some items
  | .tuple items => some items
  | .map entries => some (entries.map Prod.fst)
  | .struct _ fields => some (fields.map Prod.fst)
  | _ => none

mutual

/-- Whether a value may be a key of a map: it must not hold a list, a map or a record. -/
def isKey : Value → Bool
  | .list _ => false
  | .map _ => false
  | .struct .. => false
  | .tuple items => areKeys items
  | _ => true
termination_by structural v => v

/-- Whether every value of a list may be a key. -/
def areKeys : List Value → Bool
  | [] => true
  | v :: vs => isKey v && areKeys vs
termination_by structural vs => vs

end

mutual

/-- A value with all that it holds: items, keys and values, at every depth. -/
def parts : Value → List Value
  | .list items => .list items :: itemParts items
  | .tuple items => .tuple items :: itemParts items
  | .map entries => .map entries :: entryParts entries
  | .struct unit fields => .struct unit fields :: entryParts fields
  | v => [v]
termination_by structural v => v

/-- The values of a list with all that they hold. -/
def itemParts : List Value → List Value
  | [] => []
  | v :: vs => parts v ++ itemParts vs
termination_by structural vs => vs

/-- The keys and values of a list of entries with all that they hold. -/
def entryParts : List (Value × Value) → List Value
  | [] => []
  | (k, v) :: es => parts k ++ parts v ++ entryParts es
termination_by structural es => es

end

end Value

end Heredity
