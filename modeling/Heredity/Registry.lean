import Heredity.Error

/-!
# Registries

A registry holds what one unit declares and passes on.

* `RoutineRecord` — a routine that descendants inherit, with its origin and whether they may replace
  it.
* `Statement`, `Declaration`, `Hook` — what a unit writes; a hook is a list of statements that a
  base has executed in every unit that extends it.
* `Registry` — the declarations of one unit; it is plain data and never changes.
* `Draft` — a registry that is still being written.  Every write goes through a function that fails
  once the draft is closed; `Draft.close` closes it and hands out the registry.

A unit never depends on itself: `Draft.addDependencies` drops its name.
-/

namespace Heredity

/-- Where a routine of a unit comes from. -/
inductive Origin where
  /-- Declared by the unit itself. -/
  | native
  /-- Inherited; the body is emitted again in the unit. -/
  | copied
  /-- Inherited; a call is forwarded to the base, which keeps the body. -/
  | delegated
deriving DecidableEq, Inhabited

/-- A routine that a unit passes on. -/
structure RoutineRecord where
  /-- The parameters. -/
  params : List Tree
  /-- The guards, all of which must hold. -/
  guards : List Tree
  /-- The body. -/
  body : Tree
  /-- Where the routine comes from. -/
  origin : Origin
  /-- Whether descendants may replace the routine. -/
  permitted : Bool
deriving Inhabited

/-- Whether a record comes from the base. -/
def RoutineRecord.inherited (r : RoutineRecord) : Bool := r.origin != .native

/-- The declaration of a routine. -/
structure Declaration where
  /-- The name of the routine. -/
  name : String
  /-- The parameters, some of which may be optional. -/
  params : List Tree
  /-- The body. -/
  body : Tree
  /-- The guards. -/
  guards : List Tree
  /-- Whether only the unit itself may call the routine. -/
  isPrivate : Bool
  /-- Whether the declaration also permits descendants to replace the routine. -/
  overridable : Bool

/-- What a unit may write. -/
inductive Statement where
  /-- Declares a routine. -/
  | define (declaration : Declaration)
  /-- Permits descendants to replace a routine. -/
  | grant (key : Key)
  /-- Keeps a routine from every descendant. -/
  | withhold (key : Key)

/-- Statements that are executed in every unit that extends the one that holds them. -/
abbrev Hook := List Statement

/-- The declarations of one unit. -/
structure Registry where
  /-- The name of the unit. -/
  unit : String
  /-- The unit that it extends. -/
  base : Option String := none
  /-- The routines that it passes on, in the order of their first declaration. -/
  routines : Table Key RoutineRecord := ∅
  /-- The keys of its private routines. -/
  privateKeys : KeySet := ∅
  /-- The keys that it keeps from its descendants. -/
  withheld : KeySet := ∅
  /-- The fields of its records with their defaults. -/
  fields : Table Value Value := ∅
  /-- The other units that it needs. -/
  dependencies : NameSet := ∅
  /-- The keys that it imports, with their sources. -/
  imports : Table Key String := ∅
  /-- Executed in an extension before the inherited routines are emitted. -/
  preHook : Option Hook := none
  /-- Executed in an extension after the inherited routines are emitted. -/
  postHook : Option Hook := none

/-- A registry that may still be written. -/
structure Draft extends Registry where
  /-- Whether writing is over. -/
  closed : Bool := false

namespace Draft

/-- The draft itself, while it may be written. -/
def ensureOpen (d : Draft) : Except Error Draft :=
  if d.closed then .error (.registryClosed d.unit) else .ok d

/-- Records a routine. -/
def record (d : Draft) (key : Key) (routine : RoutineRecord) : Except Error Draft := do
  let d ← d.ensureOpen
  return { d with routines := d.routines.insert key routine }

/-- Removes the record of a routine and returns it. -/
def discard (d : Draft) (key : Key) : Except Error (Option RoutineRecord × Draft) := do
  let d ← d.ensureOpen
  return (d.routines.get? key, { d with routines := d.routines.erase key })

/-- Adds the key of a private routine. -/
def addPrivate (d : Draft) (key : Key) : Except Error Draft := do
  let d ← d.ensureOpen
  return { d with privateKeys := d.privateKeys.add key }

/-- Adds a key that is kept from descendants. -/
def addWithheld (d : Draft) (key : Key) : Except Error Draft := do
  let d ← d.ensureOpen
  return { d with withheld := d.withheld.add key }

/-- Adds units that the unit needs, itself left out. -/
def addDependencies (d : Draft) (units : List String) : Except Error Draft := do
  let d ← d.ensureOpen
  return { d with dependencies := d.dependencies.addAll (units.filter (· != d.unit)) }

/-- Adds the import of a key. -/
def addImport (d : Draft) (key : Key) (source : String) : Except Error Draft := do
  let d ← d.ensureOpen
  return { d with imports := d.imports.insert key source }

/-- Sets both hooks. -/
def setHooks (d : Draft) (pre post : Option Hook) : Except Error Draft := do
  let d ← d.ensureOpen
  return { d with preHook := pre, postHook := post }

/-- Whether a key is both recorded and withheld. -/
def recordsWithheld (d : Draft) : Bool := d.withheld.toList.any d.routines.contains

/-- Closes the draft and hands out the registry. -/
def close (d : Draft) : Except Error (Registry × Draft) := do
  let d ← d.ensureOpen
  if d.recordsWithheld then throw .withheldRecorded
  return (d.toRegistry, { d with closed := true })

end Draft

end Heredity
