import Heredity.Path
import Heredity.Registry
import Heredity.Value.Equality

/-!
# Unit definitions

A definition is a unit as it is written in a file: its name, the base that it extends, its fields,
what it imports, its statements and its hooks, together with the file that it was read from.
-/

namespace Heredity

/-- A unit as it is defined in a file. -/
structure Definition where
  /-- The name of the unit. -/
  name : String
  /-- The unit that it extends. -/
  base : Option String
  /-- The fields of its records with their defaults. -/
  fields : List (Value × Value)
  /-- The units that it imports from, with the keys it imports; without keys, all that are passed
  on. -/
  imports : List (Value × Option (List Key))
  /-- Its statements. -/
  statements : List Statement
  /-- Executed in an extension before the inherited routines are emitted. -/
  preHook : Option Hook
  /-- Executed in an extension after the inherited routines are emitted. -/
  postHook : Option Hook
  /-- The file that defines it. -/
  file : Path

namespace Definition

/-- The statements of a unit and of its hooks. -/
def allStatements (d : Definition) : List Statement :=
  d.statements ++ d.preHook.toList.flatten ++ d.postHook.toList.flatten

/-- The expressions of a statement that are emitted as they are written: the body, then the
guards. -/
def statementExpressions : Statement → List Tree
  | .define declaration => declaration.body :: declaration.guards
  | _ => []

/-- The units that a definition names: its base, the sources of its imports, and the units of the
qualified calls in its statements. -/
def requirements (d : Definition) : List String :=
  d.base.toList ++ d.imports.filterMap (fun i => i.1.text?) ++
    (d.allStatements.flatMap statementExpressions).flatMap Tree.remoteUnits

end Definition

/-- Definitions by the name of their unit. -/
abbrev Definitions := Table String Definition

end Heredity
