import Heredity.Value.Template

/-!
# Primitive operations

The operations that routine bodies may use without defining them.

* `Operation` lists them; `Operation.symbol` is how each is written and `Operation.ofSymbol?` reads
  that back.
* `Operation.apply` applies an operation to the values of its operands, all of which have been
  computed before: `and` and `or` return one of their operands, but they skip nothing.

Integers stay integers except under `/`; mixed with floating-point numbers they are rounded first,
which fails for integers beyond the finite numbers.  `div` and `rem` round to the floor.  Each
operation takes operands of the kinds that it names and fails with `Fault.unsupported` on others.
-/

namespace Heredity

/-- A primitive operation. -/
inductive Operation where
  | add | subtract | multiply | divide | quotient | remainder
  | equal | unequal | less | atMost | greater | atLeast
  | both | either | negate
  | chain | concat | merge | length | item | toText
  | isInteger | isText | isList | isTuple | isMap
deriving DecidableEq

namespace Operation

/-- Every operation. -/
def all : List Operation :=
  [.add, .subtract, .multiply, .divide, .quotient, .remainder,
    .equal, .unequal, .less, .atMost, .greater, .atLeast,
    .both, .either, .negate,
    .chain, .concat, .merge, .length, .item, .toText,
    .isInteger, .isText, .isList, .isTuple, .isMap]

/-- How an operation is written. -/
def symbol : Operation → String
  | .add => "+"
  | .subtract => "-"
  | .multiply => "*"
  | .divide => "/"
  | .quotient => "div"
  | .remainder => "rem"
  | .equal => "=="
  | .unequal => "!="
  | .less => "<"
  | .atMost => "<="
  | .greater => ">"
  | .atLeast => ">="
  | .both => "and"
  | .either => "or"
  | .negate => "not"
  | .chain => "++"
  | .concat => "<>"
  | .merge => "merge"
  | .length => "length"
  | .item => "elem"
  | .toText => "to_string"
  | .isInteger => "is_integer"
  | .isText => "is_binary"
  | .isList => "is_list"
  | .isTuple => "is_tuple"
  | .isMap => "is_map"

/-- The operation that is written as the given text. -/
def ofSymbol? (s : String) : Option Operation := all.find? (fun o => o.symbol == s)

/-- Whether a text is the symbol of an operation. -/
def isSymbol (s : String) : Bool := (ofSymbol? s).isSome

/-- An operation is read back from its symbol. -/
theorem ofSymbol?_symbol (o : Operation) : ofSymbol? o.symbol = some o := by
  cases o <;> decide

theorem isSymbol_iff (s : String) : isSymbol s = true ↔ ∃ o : Operation, o.symbol = s := by
  unfold isSymbol
  constructor
  · intro isSome
    obtain ⟨o, found⟩ := Option.isSome_iff_exists.1 isSome
    have agrees : (o.symbol == s) = true := by
      unfold ofSymbol? at found
      exact List.find?_some (p := fun o : Operation => o.symbol == s) found
    exact ⟨o, eq_of_beq agrees⟩
  · rintro ⟨o, rfl⟩
    rw [ofSymbol?_symbol]
    rfl

/-! ### Arithmetic -/

/-- A number as a floating-point number. -/
def toFloat : Number → Except Fault Binary64
  | .int n =>
    match Binary64.ofInt? n with
    | some x => .ok x
    | none => .error .overflow
  | .float x => .ok x

/-- Applies one function to two integers, and another to two numbers of which one is not. -/
def arithmetic (ints : Int → Int → Except Fault Value)
    (floats : Binary64 → Binary64 → Except Fault Value) (a b : Number) : Except Fault Value :=
  match a, b with
  | .int m, .int n => ints m n
  | a, b => do
    let x ← toFloat a
    let y ← toFloat b
    floats x y

/-- Applies a function to the numbers of two values. -/
def onNumbers (f : Number → Number → Except Fault Value) (v w : Value) : Except Fault Value :=
  match v.number?, w.number? with
  | some a, some b => f a b
  | _, _ => .error .unsupported

/-- A function of integers that fails at a zero divisor. -/
def unlessZero (f : Int → Int → Int) (m n : Int) : Except Fault Value :=
  if n = 0 then .error .divisionByZero else .ok (.int (f m n))

/-- A function of floating-point numbers that fails at a zero divisor. -/
def unlessFloatZero (f : Binary64 → Binary64 → Binary64) (x y : Binary64) : Except Fault Value :=
  if y.isZero then .error .divisionByZero else .ok (.float (f x y))

/-- The quotient of two integers as a floating-point number. -/
def divideInts (m n : Int) : Except Fault Value :=
  if n = 0 then .error .divisionByZero
  else
    match Binary64.ofQuotient? m n with
    | some x => .ok (.float x)
    | none => .error .overflow

/-! ### Sequences -/

/-- Joins two sequences of one kind. -/
def join : Value → Value → Except Fault Value
  | .text a, .text b => .ok (.text (a ++ b))
  | .list a, .list b => .ok (.list (a ++ b))
  | .tuple a, .tuple b => .ok (.tuple (a ++ b))
  | _, _ => .error .unsupported

/-- The largest number of items that a sequence or an index can have. -/
def sizeLimit : Nat := Nat.pow 2 63 - 1

/-- The largest number of items that a result is given memory for. -/
def memoryLimit : Nat := Nat.pow 2 36

/-- The number of items of a text, a list or a tuple. -/
def sequenceSize? : Value → Option Nat
  | .text s => some s.length
  | .list items => some items.length
  | .tuple items => some items.length
  | _ => none

/-- Repeats a text, a list or a tuple `n` times. -/
def replicate (n : Nat) : Value → Value
  | .text s => .text (String.ofList (List.replicate n s.toList).flatten)
  | .list items => .list (List.replicate n items).flatten
  | .tuple items => .tuple (List.replicate n items).flatten
  | v => v

/-- Repeats a sequence; a negative count gives an empty one.  Counts that are no index, and texts
beyond the limit, overflow; lists and tuples beyond it run out of memory. -/
def repeatSequence (v : Value) (count : Int) : Except Fault Value :=
  match sequenceSize? v with
  | none => .error .unsupported
  | some size =>
    if (sizeLimit : Int) < count ∨ count < -(sizeLimit : Int) - 1 then .error .overflow
    else if sizeLimit < size * count.toNat then
      if v.kind = .text then .error .overflow else .error .outOfMemory
    else if memoryLimit < size * count.toNat then .error .outOfMemory
    else .ok (replicate (if size = 0 then 0 else count.toNat) v)

/-- The product of two numbers, or a sequence repeated. -/
def multiplyValues (v w : Value) : Except Fault Value :=
  match v.number?, w.number? with
  | some a, some b =>
    arithmetic (fun m n => .ok (.int (m * n))) (fun x y => .ok (.float (x.mul y))) a b
  | _, _ =>
    match v.int?, w.int? with
    | none, some n => repeatSequence v n
    | some n, none => repeatSequence w n
    | _, _ => .error .unsupported

/-- The sum of two numbers, or two sequences joined. -/
def addValues (v w : Value) : Except Fault Value :=
  match v.number?, w.number? with
  | some a, some b =>
    arithmetic (fun m n => .ok (.int (m + n))) (fun x y => .ok (.float (x.add y))) a b
  | _, _ => join v w

/-- The difference of two numbers.  That of two moments is no value. -/
def subtractValues (v w : Value) : Except Fault Value :=
  match v, w with
  | .moment a, .moment b => a.difference b
  | v, w =>
    onNumbers (arithmetic (fun m n => .ok (.int (m - n))) (fun x y => .ok (.float (x.sub y)))) v w

/-- The remainder of two numbers, or a template filled in. -/
def remainderValues (v w : Value) : Except Fault Value :=
  match v with
  | .text template => Value.fillTemplate template w
  | v =>
    onNumbers (arithmetic (unlessZero Int.fmod) (unlessFloatZero Binary64.floorMod)) v w

/-- Everything that iterating over two values gives, as one list. -/
def chainValues (v w : Value) : Except Fault Value :=
  match v.elements?, w.elements? with
  | some a, some b => .ok (.list (a ++ b))
  | _, _ => .error .unsupported

/-- The entries of two associations in one map; the second one wins. -/
def mergeValues (v w : Value) : Except Fault Value :=
  match v.entries?, w.entries? with
  | some es, some fs => .ok (.map ((Table.ofList es).insertAll fs).entries)
  | _, _ => .error .unsupported

/-- The number of characters, items, entries or fields. -/
def lengthOf (v : Value) : Except Fault Value :=
  match v.elements? with
  | some items => .ok (.int items.length)
  | none => .error .unsupported

/-- The item at an index; negative indices count from the end. -/
def itemAt (items : List Value) (index : Value) : Except Fault Value :=
  match index.int? with
  | none => .error .unsupported
  | some i =>
    let i := if i < 0 then i + items.length else i
    if i < 0 then .error .outOfRange
    else
      match items[i.toNat]? with
      | some v => .ok v
      | none => .error .outOfRange

/-- The value at a key of an association. -/
def valueAt (entries : List (Value × Value)) (key : Value) : Except Fault Value :=
  if key.isKey then
    match entries.find? (fun e => e.1 == key) with
    | some e => .ok e.2
    | none => .error .missingKey
  else .error .unsupported

/-- The item of a sequence at an index, or the value of an association at a key. -/
def itemOf (v index : Value) : Except Fault Value :=
  match v.entries?, v.elements? with
  | some entries, _ => valueAt entries index
  | none, some items => itemAt items index
  | none, none => .error .unsupported

/-! ### Application -/

/-- Whether a comparison holds, given the test on the order. -/
def compareValues (test : Ordering → Bool) (v w : Value) : Except Fault Value := do
  match ← v.order w with
  | some o => return .bool (test o)
  | none => return .bool false

/-- Applies an operation to its operands. -/
def apply : Operation → List Value → Except Fault Value
  | .add, [v, w] => addValues v w
  | .subtract, [v, w] => subtractValues v w
  | .multiply, [v, w] => multiplyValues v w
  | .divide, [v, w] => onNumbers (arithmetic divideInts (unlessFloatZero Binary64.div)) v w
  | .quotient, [v, w] =>
    onNumbers (arithmetic (unlessZero Int.fdiv) (unlessFloatZero Binary64.floorDiv)) v w
  | .remainder, [v, w] => remainderValues v w
  | .equal, [v, w] => .ok (.bool (v.same w))
  | .unequal, [v, w] => .ok (.bool !v.same w)
  | .less, [v, w] => compareValues (· == .lt) v w
  | .atMost, [v, w] => compareValues (· != .gt) v w
  | .greater, [v, w] => compareValues (· == .gt) v w
  | .atLeast, [v, w] => compareValues (· != .lt) v w
  | .both, [v, w] => .ok (if v.isTruthy then w else v)
  | .either, [v, w] => .ok (if v.isTruthy then v else w)
  | .negate, [v] => .ok (.bool !v.isTruthy)
  | .chain, [v, w] => chainValues v w
  | .concat, [v, w] => join v w
  | .merge, [v, w] => mergeValues v w
  | .length, [v] => lengthOf v
  | .item, [v, w] => itemOf v w
  | .toText, [] => .ok (.text "")
  | .toText, [v] => do return .text (← v.toText)
  | .isInteger, [v] => .ok (.bool (v.kind = .int))
  | .isText, [v] => .ok (.bool (v.kind = .text))
  | .isList, [v] => .ok (.bool (v.kind = .list))
  | .isTuple, [v] => .ok (.bool (v.kind = .tuple))
  | .isMap, [v] => .ok (.bool (v.entries?.isSome))
  | _, _ => .error .unsupported

end Operation

end Heredity
