import Heredity.Error
import Heredity.Value.Equality

/-!
# Matching

`Tree.matchValue` matches a pattern against a value in an environment.  It reports whether the value
matches, together with the environment, in which the bindings made before a failure stay.

* A name that is bound already matches values equal to its value.
* A constant matches values of its own kind that are equal to it; the kind is compared only at the
  top, equality goes by contents.
* Tuples match tuples and lists match lists, of the same length.

An expression in the place of a pattern is an error, but only where the match reaches it.
-/

namespace Heredity

/-- The values that are bound to names, in the order of binding. -/
abbrev Env := Table String Value

namespace Tree

/-- Binds a name, or compares with the value that it has. -/
def bindName (name : String) (value : Value) (env : Env) : Bool × Env :=
  match env.get? name with
  | some bound => (bound.same value, env)
  | none => (true, env.insert name value)

mutual

/-- Matches a pattern against a value. -/
def matchValue : Tree → Value → Env → Except Error (Bool × Env)
  | .binding name, value, env => .ok (bindName name value env)
  | .wildcard _, _, env => .ok (true, env)
  | .constant expected, value, env =>
    .ok (decide (value.kind = expected.kind) && value.same expected, env)
  | .tuplePattern items, value, env =>
    match value with
    | .tuple values =>
      if values.length = items.length then matchAll items values env else .ok (false, env)
    | _ => .ok (false, env)
  | .listPattern items, value, env =>
    match value with
    | .list values =>
      if values.length = items.length then matchAll items values env else .ok (false, env)
    | _ => .ok (false, env)
  | .alias pattern name, value, env => do
    let (matched, env) ← matchValue pattern value env
    if matched then return bindName name value env else return (false, env)
  | .optional pattern _, value, env => matchValue pattern value env
  | t, _, _ => .error (.notAPattern t)
termination_by structural t => t

/-- Matches patterns against values, pair by pair, until one fails or either list ends. -/
def matchAll : List Tree → List Value → Env → Except Error (Bool × Env)
  | pattern :: patterns, value :: values, env => do
    let (matched, env) ← matchValue pattern value env
    if matched then matchAll patterns values env else return (false, env)
  | _, _, env => .ok (true, env)
termination_by structural ts => ts

end

end Tree

end Heredity
