import Heredity.Definition.Basic
import Heredity.Definition.Graph
import Heredity.Store

/-!
# The order of compilation

Units that were defined together are compiled in an order in which every unit follows the units that
it names.  `Definitions.schedule` fails at a base that is neither defined nor published, in the
order of the names, and then at a cycle; a unit may name itself.
-/

namespace Heredity.Definitions

/-- The names of the units, in order. -/
def sortedNames (ds : Definitions) : List String := ds.keys.mergeSort fun a b => a ≤ b

/-- What a definition needs of the others. -/
def needs (ds : Definitions) (name : String) (d : Definition) : List String :=
  d.requirements.filter fun r => ds.contains r && r != name

/-- Checks that the base of a definition is defined or published. -/
def checkBase (ds : Definitions) (store : Store) (name : String) (d : Definition) :
    Except Error Unit :=
  match d.base with
  | none => .ok ()
  | some base =>
    if ds.contains base || (store.get? base).isSome then .ok ()
    else .error (.unresolvedBase name (.text base))

/-- Adds the definitions of the given names to a graph. -/
def addAll (ds : Definitions) (store : Store) (g : Graph) : List String → Except Error Graph
  | [] => .ok g
  | name :: names =>
    match ds.get? name with
    | none => addAll ds store g names
    | some d => do
      checkBase ds store name d
      addAll ds store (g.add name (ds.needs name d)) names

/-- The graph of the definitions. -/
def graph (ds : Definitions) (store : Store) : Except Error Graph :=
  addAll ds store {} ds.sortedNames

/-- The order in which the units are compiled. -/
def schedule (ds : Definitions) (store : Store) : Except Error (List String) := do
  let g ← ds.graph store
  match g.findCycle? with
  | some cycle => throw (.cycle cycle)
  | none => return g.order

end Heredity.Definitions
