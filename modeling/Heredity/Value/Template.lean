import Heredity.Value.Order
import Heredity.Value.Text

/-!
# Filling in templates

A template is a text with places: `%s` takes any value as text, `%d` takes a number and writes its
whole part, `%%` is a percent sign.  A tuple gives one value to each place, any other value fills
the only place.

* A place without a value, or a value without a place, is `Fault.unsupported`.  A value that could
  be looked into by key (a list, a map, a record) may be left over.
* Any other character after a percent sign, or none, is `Fault.malformed`.  No other kinds of places
  are supported.
-/

namespace Heredity.Value

/-- The whole part of a number, written out. -/
def wholeText (v : Value) : Except Fault String :=
  match v with
  | .float (.nan _) => .error .malformed
  | .float x =>
    match x.truncate? with
    | some n => Numeral.ofInt n
    | none => .error .overflow
  | v =>
    match v.int? with
    | some n => Numeral.ofInt n
    | none => .error .unsupported

/-- Fills the places of a template from the front of a list of values and returns the values that
are left. -/
def fillPlaces : List Char → List Value → Except Fault (List Char × List Value)
  | [], args => .ok ([], args)
  | ['%'], _ => .error .malformed
  | '%' :: '%' :: cs, args => do
    let (rest, left) ← fillPlaces cs args
    return ('%' :: rest, left)
  | '%' :: _ :: _, [] => .error .unsupported
  | '%' :: place :: cs, arg :: args =>
    if place = 's' then do
      let text ← arg.toText
      let (rest, left) ← fillPlaces cs args
      return (text.toList ++ rest, left)
    else if place = 'd' then do
      let digits ← wholeText arg
      let (rest, left) ← fillPlaces cs args
      return (digits.toList ++ rest, left)
    else .error .malformed
  | c :: cs, args => do
    let (rest, left) ← fillPlaces cs args
    return (c :: rest, left)

/-- Whether a value may stay without a place. -/
def mayBeLeftOver : Value → Bool
  | .list _ => true
  | .map _ => true
  | .struct .. => true
  | _ => false

/-- Fills a template with the items of a tuple, or with the one value that is given. -/
def fillTemplate (template : String) (arg : Value) : Except Fault Value :=
  match arg with
  | .tuple items => do
    let (filled, left) ← fillPlaces template.toList items
    if left.isEmpty then return .text (String.ofList filled) else throw .unsupported
  | arg => do
    let (filled, left) ← fillPlaces template.toList [arg]
    if left.isEmpty || arg.mayBeLeftOver then return .text (String.ofList filled)
    else throw .unsupported

end Heredity.Value
