import Heredity.Emission
import Heredity.Ledger
import Heredity.Tree.Dependence
import Heredity.Tree.Parameters
import Heredity.Tree.Qualified
import Heredity.Value.Equality

/-!
# What a unit inherits

Resolution happens once, when a unit is opened as the extension of a published base.

* `mergeFields` puts the fields of the extension over those of the base.
* `inheritRoutine` takes over one routine.  If it depends on a private routine of the base, or on a
  withheld one, it is **delegated**: the extension gets a routine that forwards its arguments to the
  base.  Otherwise it is **copied**: its body is emitted again in the extension, so that the bare
  calls in it mean the extension's routines.
* `resolve` makes the draft of the extension, with everything it inherits, and the list of
  emissions that put the inherited routines into the program.

### Two decisions

**The immediate base is enough.**  Its registry holds what it inherited itself, each routine with
the body that a further extension would have to copy or forward to, so no ancestor is ever looked
up.

**Delegation is decided by what is written.**  A routine is delegated if its text calls a private
key by its bare name; whether the call is ever reached does not matter.  The guards of a forwarder
that the base alone can evaluate are dropped from it, since the base checks all its guards again.
-/

namespace Heredity

/-! ### Fields -/

/-- The two items of a value that stands for a field with its default. -/
def fieldPair (v : Value) : Except Fault (Value × Value) :=
  match v.elements? with
  | none => .error .unsupported
  | some [name, default] => .ok (name, default)
  | some _ => .error .malformed

/-- The fields that a value lists: the entries of an association, or the pairs that iterating over
it gives. -/
def fieldList (fields : Value) : Except Fault (List (Except Fault (Value × Value))) :=
  match fields.entries?, fields.elements? with
  | some entries, _ => .ok (entries.map .ok)
  | none, some items => .ok (items.map fieldPair)
  | none, none => .error .unsupported

/-- Puts fields into a table, one after the other. -/
def putFields (defaults : Table Value Value) :
    List (Except Fault (Value × Value)) → Except Fault (Table Value Value)
  | [] => .ok defaults
  | field :: fields => do
    let (name, default) ← field
    if name.isKey then putFields (defaults.insert name default) fields
    else throw .unsupported

/-- Merges fields into the defaults of a base: a known field keeps its position and takes the new
default, a new field comes last. -/
def mergeFields (defaults : Table Value Value) (fields : Value) :
    Except Fault (Table Value Value) := do
  putFields defaults (← fieldList fields)

/-! ### Routines -/

/-- The calls that keep a routine of the base from being copied. -/
def Registry.triggers (base : Registry) (config : Config) : KeySet :=
  if config.delegateWithheld then base.privateKeys.union base.withheld else base.privateKeys

/-- The copy of a routine of the base, and the units that it calls. -/
def copyRoutine (config : Config) (base : Registry) (r : RoutineRecord) :
    Except Error (RoutineRecord × List String) := do
  let (body, units) ← r.body.qualify base.imports
  let guards ← r.guards.mapM (Tree.qualify base.imports)
  let copy : RoutineRecord :=
    { params := Tree.normalize r.params r.guards config.stem
      guards := guards.map Prod.fst
      body := body
      origin := .copied
      permitted := r.permitted }
  return (copy, units.toList ++ guards.flatMap fun g => g.2.toList)

/-- The routine that forwards calls to the base.  Guards that call what only the base has are left
to the base, which checks all of them again. -/
def delegateRoutine (config : Config) (base : Registry) (name : String) (r : RoutineRecord) :
    RoutineRecord :=
  { params := Tree.normalize r.params r.guards config.stem
    guards := r.guards.filter fun g => !g.calls (base.triggers config)
    body := .remoteCall base.unit name (Tree.forward r.params r.guards config.stem)
    origin := .delegated
    permitted := r.permitted }

/-- Takes over one routine of the base; returns it with the units that it needs. -/
def inheritRoutine (config : Config) (base : Registry) (key : Key) (r : RoutineRecord) :
    Except Error (RoutineRecord × List String) :=
  if Tree.routineCalls (base.triggers config) r.params r.guards r.body then
    .ok (delegateRoutine config base key.name r, [base.unit])
  else
    copyRoutine config base r

/-- A routine as it is inherited. -/
structure Inherited where
  /-- Its key. -/
  key : Key
  /-- Its record in the extension. -/
  routine : RoutineRecord
  /-- The units that it needs. -/
  needs : List String

/-- The routines that a base passes on, in its order. -/
def Registry.passedOn (base : Registry) : List (Key × RoutineRecord) :=
  base.routines.entries.filter fun e => !base.withheld.contains e.1

/-- Takes over every routine that the base passes on. -/
def inheritAll (config : Config) (base : Registry) : Except Error (List Inherited) :=
  base.passedOn.mapM fun e => do
    let (routine, needs) ← inheritRoutine config base e.1 e.2
    return ⟨e.1, routine, needs⟩

/-- What a unit inherits. -/
structure Resolution where
  /-- The draft of the unit. -/
  draft : Draft
  /-- What puts the inherited routines into a program. -/
  emissions : EmissionList

/-- The draft of a unit that inherits the given routines from a base. -/
def inheritedDraft (base : Registry) (unit : String) (fields : Table Value Value)
    (routines : List Inherited) : Draft :=
  { unit := unit
    base := some base.unit
    routines := Table.ofList (routines.map fun r => (r.key, r.routine))
    withheld := base.withheld
    fields := fields
    dependencies := OrderedSet.ofList
      ((base.dependencies.toList ++ routines.flatMap Inherited.needs).filter (· != unit))
    preHook := base.preHook
    postHook := base.postHook }

/-- Computes everything that `unit` inherits from `base`. -/
def resolve (base : Registry) (fields : Value) (unit : String) (config : Config) :
    Except Error Resolution := do
  -- Fields are merged first, so what is wrong with them is reported before anything else.
  let fields ← (mergeFields base.fields fields).mapError .fault
  let routines ← inheritAll config base
  let draft := inheritedDraft base unit fields routines
  return {
    draft := draft
    emissions := {
      preHooks := base.preHook.toList
      routines := routines.map fun r => Emission.ofRecord r.key r.routine
      postHooks := base.postHook.toList
      requires := draft.dependencies.sorted } }

/-- What a unit inherits from a registry that is still being written is not known yet. -/
def resolveDraft (base : Draft) : Except Error Resolution := .error (.unfinishedBase base.unit)

end Heredity
