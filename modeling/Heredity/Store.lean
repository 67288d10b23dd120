import Heredity.Registry

/-!
# The store of published registries

A unit is published once, when it has been compiled; others then build on it.

* `Store.publish` adds the registry of a unit and refuses a second one.
* `Store.require` reads a registry on behalf of another unit.
* `Store.lineage` follows the bases from a unit up to its root.  A unit that has been passed is left
  out of account from then on, so the walk ends for every store, and where bases are published
  before their extensions nothing is left out.
-/

namespace Heredity

/-- The published registries, in the order of their publication. -/
structure Store where
  /-- The registries by unit. -/
  published : Table String Registry := ∅

namespace Store

instance : EmptyCollection Store := ⟨{}⟩

/-- The registry of a unit, if it is published. -/
def get? (s : Store) (unit : String) : Option Registry := s.published.get? unit

/-- The registry of a unit that another one needs. -/
def require (s : Store) (unit : String) (byUnit : String) : Except Error Registry :=
  match s.get? unit with
  | some registry => .ok registry
  | none => .error (.unresolvedBase byUnit (.text unit))

/-- The registry of a unit that is named by any value; only texts name units. -/
def requireValue (s : Store) (unit : Value) (byUnit : String) : Except Error Registry :=
  match unit with
  | .text unit => s.require unit byUnit
  | unit => .error (.unresolvedBase byUnit unit)

/-- Publishes the registry of a unit. -/
def publish (s : Store) (unit : String) (registry : Registry) : Except Error Store :=
  if registry.unit != unit then .error (.publishedAs registry.unit unit)
  else if s.published.contains unit then .error (.alreadyPublished unit)
  else .ok ⟨s.published.insert unit registry⟩

/-- The units that are published, in order of publication. -/
def units (s : Store) : List String := s.published.keys

/-- Follows the bases from a unit, leaving out units that have been passed; there are at most `fuel`
steps. -/
def ascend : Nat → Table String Registry → String → List Registry
  | 0, _, _ => []
  | fuel + 1, published, unit =>
    match published.get? unit with
    | none => []
    | some registry =>
      registry ::
        match registry.base with
        | none => []
        | some base => ascend fuel (published.erase unit) base

/-- The registry of a unit, then that of its base, and so on to the root. -/
def lineage (s : Store) (unit : String) : List Registry :=
  ascend s.published.size s.published unit

end Store

end Heredity
