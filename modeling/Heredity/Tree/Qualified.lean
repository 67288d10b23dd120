import Heredity.Error

/-!
# Qualified references

References that leave the unit in which a body is emitted are made explicit, so that the body means
the same wherever it is copied.

* `Tree.bindBase` turns calls of the replaced routine and of the base into calls qualified with the
  name of the base; without a base it fails at the first of them.
* `Tree.qualify` turns bare calls of imported routines into calls qualified with their source, and
  collects the units of all qualified calls of the result.

Both go through the tree from the parts to the whole, so arguments are done before the call.  Both
give expressions only: a pattern is refused in the end, as `Error.wrongSort`.
-/

namespace Heredity.Tree

/-- Refuses patterns. -/
def expression (t : Tree) : Except Error Tree :=
  if t.isExpression then .ok t else .error .wrongSort

/-! ### References to the base -/

/-- The routine of the base that a node refers to, with the arguments: `name` stands for the routine
that is being declared. -/
def baseReference? (name : String) : Tree → Option (String × List Tree)
  | .superCall args => some (name, args)
  | .baseCall target args => some (target, args)
  | _ => none

/-- Turns a node that refers to the base into a qualified call. -/
def bindBaseNode (name : String) (base : Option String) (t : Tree) : Except Error Tree :=
  match baseReference? name t with
  | none => .ok t
  | some (target, args) =>
    match base with
    | none => .error (.noBase (Key.ofCount target args.length))
    | some base => .ok (.remoteCall base target args)

/-- Turns every reference to the base into a qualified call. -/
def bindBase (name : String) (base : Option String) (body : Tree) : Except Error Tree := do
  expression (← transformM (bindBaseNode name base) body)

/-! ### References to imports -/

/-- Turns a bare call of an imported routine into a qualified one and notes the unit of every
qualified call. -/
def qualifyNode (imports : Table Key String) : Tree → StateM NameSet Tree
  | .call name args =>
    match imports.get? (Key.ofCount name args.length) with
    | some unit => do
      modify (·.add unit)
      return .remoteCall unit name args
    | none => return .call name args
  | .remoteCall unit name args => do
    modify (·.add unit)
    return .remoteCall unit name args
  | t => return t

/-- Turns every bare call of an imported routine into a qualified one; returns the tree with the
units of its qualified calls. -/
def qualify (imports : Table Key String) (body : Tree) : Except Error (Tree × NameSet) := do
  let (body, units) := (transformM (qualifyNode imports) body).run ∅
  return (← expression body, units)

end Heredity.Tree
