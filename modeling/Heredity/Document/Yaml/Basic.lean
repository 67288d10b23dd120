import Heredity.Document.Yaml.Node
import Heredity.Value.Equality

/-!
# YAML

Reads a YAML text as a value.

* A sequence becomes a list and a mapping becomes a map, whose keys must not be collections
  themselves.  A key that is repeated keeps its first place and takes its last value.
* The mappings that a merge key gives are put in front of the entries of its own mapping, so these
  prevail; of several merged mappings, the first prevails.
* A text without a document stands for nothing.

Dates and times, sets and binary data are not read: a document that holds them is refused as one
that holds data that are no values.
-/

namespace Heredity.Document.Yaml

/-- Constructed keys with their values. -/
abbrev Pairs := List (Value × Value)

/-- The failure of a collection with a tag that is not for it. -/
def refuseTag {α : Type} (tag : Tag) : Except Failure α :=
  .error (if tag = .foreign then .fault .unrepresented else .malformed)

/-- The map of constructed pairs. -/
def mapOf (pairs : Pairs) : Except Failure Value :=
  if pairs.all fun p => p.1.isKey then .ok (.ofEntries pairs) else .error .malformed

/-- The value of a scalar. -/
def scalarValue (tag : Tag) (text : String) : Except Failure Value :=
  match tag.scalar text with
  | .ok (some v) => .ok v
  | .ok none => .error .malformed
  | .error f => .error (.fault f)

namespace Node

mutual

/-- The value of a node. -/
def toValue : Node → Except Failure Value
  | .scalar tag text => scalarValue tag text
  | .sequence tag items => if tag = .list then return .list (← values items) else refuseTag tag
  | .mapping tag entries => do
    if tag = .map then
      let (merged, own) ← pairs entries
      mapOf (merged ++ own)
    else refuseTag tag
termination_by structural node => node

/-- The values of nodes. -/
def values : List Node → Except Failure (List Value)
  | [] => .ok []
  | node :: nodes => do
    let v ← toValue node
    return v :: (← values nodes)
termination_by structural nodes => nodes

/-- The pairs that a mapping merges, and its own. -/
def pairs : List (Node × Node) → Except Failure (Pairs × Pairs)
  | [] => .ok ([], [])
  | entry :: entries => do
    let (merged, own) ← pair entry
    let (moreMerged, moreOwn) ← pairs entries
    return (merged ++ moreMerged, own ++ moreOwn)
termination_by structural entries => entries

/-- The pairs that an entry merges, or the pair that it is. -/
def pair : Node × Node → Except Failure (Pairs × Pairs)
  | (key, value) =>
    match key with
    | .scalar .merge _ => do return (← merged value, [])
    | .scalar .default text => do return ([], [(.text text, ← toValue value)])
    | key => do
      let k ← toValue key
      return ([], [(k, ← toValue value)])
termination_by structural entry => entry

/-- The pairs that a node gives where it is merged: a mapping, or a sequence of mappings. -/
def merged : Node → Except Failure Pairs
  | .mapping _ entries => do
    let (merged, own) ← pairs entries
    return merged ++ own
  | .sequence _ items => mergedItems items
  | .scalar .. => .error .malformed
termination_by structural node => node

/-- The pairs of mappings that are merged; those of the first come last. -/
def mergedItems : List Node → Except Failure Pairs
  | [] => .ok []
  | node :: nodes => do
    let pairs ← mergedItem node
    return (← mergedItems nodes) ++ pairs
termination_by structural nodes => nodes

/-- The pairs of one of several mappings that are merged. -/
def mergedItem : Node → Except Failure Pairs
  | .mapping _ entries => do
    let (merged, own) ← pairs entries
    return merged ++ own
  | _ => .error .malformed
termination_by structural node => node

end

end Node

/-- Reads a YAML text, whose lines end in line feeds. -/
def parse (text : String) : Except Failure Value := do
  match ← Node.ofText text.toList with
  | none => return .null
  | some node => node.toValue

end Heredity.Document.Yaml
