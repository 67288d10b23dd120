import Heredity.Error

/-!
# Building trees by hand

Shorter ways to write trees: the arguments of calls may be plain values, which become literals, and
parameters may be plain names, of which those that start with an underscore become wildcards.
-/

namespace Heredity.Tree

/-- What may stand where an expression or a parameter is needed. -/
inductive Part where
  /-- A plain value. -/
  | value (v : Value)
  /-- A tree. -/
  | tree (t : Tree)

namespace Part

/-- A part as an expression: plain values become literals. -/
def expression : Part → Tree
  | .value v => .literal v
  | .tree t => t

end Part

/-- Whether a name marks a parameter that is not used. -/
def isUnused (name : String) : Bool := name.toList.head? == some '_'

/-- The parameter of a plain name. -/
def ofName (name : String) : Tree := if isUnused name then .wildcard name else .binding name

/-- A part as a parameter: plain names become bindings or wildcards, patterns stay. -/
def Part.parameter : Part → Except Error Tree
  | .value (.text name) => .ok (ofName name)
  | .value _ => .error .notAParameter
  | .tree t => if t.isExpression then .error .notAParameter else .ok t

/-- A bare call. -/
def callOf (name : String) (args : List Part) : Tree := .call name (args.map Part.expression)

/-- A qualified call. -/
def remoteOf (unit name : String) (args : List Part) : Tree :=
  .remoteCall unit name (args.map Part.expression)

/-- A call of the routine that is replaced. -/
def superOf (args : List Part) : Tree := .superCall (args.map Part.expression)

/-- A call of a routine of the base. -/
def baseOf (name : String) (args : List Part) : Tree :=
  .baseCall name (args.map Part.expression)

/-- A primitive operation. -/
def primitiveOf (symbol : String) (args : List Part) : Tree :=
  .primitive symbol (args.map Part.expression)

/-- A tuple. -/
def tupleOf (items : List Part) : Tree := .tuple (items.map Part.expression)

/-- A list. -/
def listOf (items : List Part) : Tree := .list (items.map Part.expression)

/-- A parameter list. -/
def parametersOf (items : List Part) : Except Error (List Tree) := items.mapM Part.parameter

end Heredity.Tree
