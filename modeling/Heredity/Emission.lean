import Heredity.Registry

/-!
# Emissions

An emission is a routine on its way into a program: `Emission.ofRecord` makes one from a recorded
routine.  An `EmissionList` is everything that puts the inherited routines of a unit into a program,
with the hooks that are executed before and after them.
-/

namespace Heredity

/-- A routine handed to the program. -/
structure Emission where
  /-- The key at which it is called. -/
  key : Key
  /-- The parameters. -/
  params : List Tree
  /-- The guards. -/
  guards : List Tree
  /-- The body. -/
  body : Tree
  /-- Where the routine comes from. -/
  origin : Origin
  /-- Whether descendants may replace it. -/
  permitted : Bool := false
  /-- Whether only the unit itself may call it. -/
  isPrivate : Bool := false
deriving Inhabited

/-- The emission of a recorded routine. -/
def Emission.ofRecord (key : Key) (r : RoutineRecord) : Emission :=
  { key := key, params := r.params, guards := r.guards, body := r.body, origin := r.origin
    permitted := r.permitted }

/-- What puts the inherited routines into a program. -/
structure EmissionList where
  /-- Executed before the routines are emitted. -/
  preHooks : List Hook
  /-- The routines, in the order of the base. -/
  routines : List Emission
  /-- Executed after the routines are emitted. -/
  postHooks : List Hook
  /-- The units that must be available wherever the routines are, in order. -/
  requires : List String

end Heredity
