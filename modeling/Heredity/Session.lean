import Heredity.Program
import Heredity.Resolution
import Heredity.Store

/-!
# Compile sessions

A session is the time in which a unit is written: it is opened, takes declarations, and is closed.

* `Session` — the draft of the unit, its ledger, and the declarations that stayed without effect.
* `Bench` — what a session works on: itself, the program that receives its routines, and the
  warnings issued so far.
* `Step` — an operation that may fail.  What it changed before it failed stays changed.
* `Session.define`, `grant`, `withhold`, `importRoutines`, `setHooks`, `run` — the operations on an
  open session; `Session.close` ends it and hands out the registry to be published.
* `Session.materialize` puts inherited routines into the program and executes the hooks of the base.

Declarations are *prepared* before anything is recorded: references to the base and to imports are
made explicit (`Session.prepare`).  Only the body and the guards are prepared as they are written;
the routines for smaller arities are made afterwards.

### Three decisions

**A failure undoes nothing.**  `Step` puts the outcome inside the state, so that a declaration of
which the second arity is refused has recorded the first one.

**The draft and the program are written apart.**  A declaration that counts for the unit alone,
being private or at a withheld key, goes into the program without being recorded; an inert one goes
into neither.

**The store is only read.**  It is a parameter of what needs it, not a part of `Bench`.
-/

namespace Heredity

/-- An operation on a state that may fail and keeps what it changed before. -/
abbrev Step (σ α : Type) := ExceptT Error (StateM σ) α

/-- A unit that is being written. -/
structure Session where
  /-- What it has declared. -/
  draft : Draft
  /-- What it may replace, and the options under which it is compiled. -/
  ledger : Ledger
  /-- The declarations that stayed without effect. -/
  inert : List Emission := []

/-- What a session works on. -/
structure Bench where
  /-- The session. -/
  session : Session
  /-- The program that receives the routines. -/
  program : Program
  /-- The warnings issued so far. -/
  warnings : List Warning := []

namespace Bench

/-- The name of the unit. -/
def unit (b : Bench) : String := b.session.draft.unit

/-- The bench with another draft. -/
def withDraft (b : Bench) (d : Draft) : Bench := { b with session := { b.session with draft := d } }

/-- Fails with an error, or goes on with a result. -/
def lift {σ α : Type} (result : Except Error α) : Step σ α := ExceptT.mk (pure result)

/-- Changes the draft. -/
def updateDraft (f : Draft → Except Error Draft) : Step Bench Unit := do
  let b ← get
  let d ← lift (f b.session.draft)
  set (b.withDraft d)

/-- Changes the program. -/
def updateProgram (f : Program → Except Error Program) : Step Bench Unit := do
  let b ← get
  let p ← lift (f b.program)
  set { b with program := p }

/-- Issues a warning, if there is one. -/
def warn (w : Option Warning) : Step Bench Unit :=
  modify fun b => { b with warnings := b.warnings ++ w.toList }

end Bench

namespace Session

open Bench (lift updateDraft updateProgram warn)

/-- The options of a session. -/
def config (s : Session) : Config := s.ledger.config

/-! ### Preparing expressions -/

/-- The number of arguments of a call of the replaced routine. -/
def superArity? : Tree → Option Nat
  | .superCall args => some args.length
  | _ => none

/-- Checks that the base passes on the routine that a call of the replaced routine means. -/
def checkSuperCall (store : Store) (d : Draft) (key : Key) : Except Error Unit :=
  match d.base with
  | none => .error (.superWithoutBase d.unit key)
  | some base => do
    let registry ← store.require base d.unit
    if registry.routines.contains key then return ()
    else throw (.superNotPassedOn d.unit base key)

/-- Checks the calls of the replaced routine in an expression, in the order of the source. -/
def checkSuperCalls (store : Store) (d : Draft) (name : String) (expr : Tree) :
    Except Error Unit :=
  (expr.walk.filterMap superArity?).forM fun n => checkSuperCall store d (Key.ofCount name n)

/-- Makes the references of an expression explicit; returns it with the units that it calls. -/
def prepare (store : Store) (d : Draft) (name : String) (expr : Tree) :
    Except Error (Tree × NameSet) := do
  checkSuperCalls store d name expr
  let bound ← expr.bindBase name d.base
  bound.qualify d.imports

/-- A declaration with prepared body and guards, and the units that they call. -/
def prepareAll (store : Store) (d : Draft) (declaration : Declaration) :
    Except Error (Tree × List Tree × NameSet) := do
  let (body, units) ← prepare store d declaration.name declaration.body
  let guards ← declaration.guards.mapM (prepare store d declaration.name)
  return (body, guards.map Prod.fst, guards.foldl (fun units g => units.union g.2) units)

/-! ### Declaring -/

/-- The emission of a variant of a declaration. -/
def variantEmission (declaration : Declaration) (v : Tree.Variant) : Emission :=
  { key := Key.ofCount declaration.name v.arity
    params := v.params
    guards := v.guards
    body := v.body
    origin := .native
    isPrivate := declaration.isPrivate }

/-- Declares a private routine: it counts for the unit alone. -/
def declarePrivate (e : Emission) : Step Bench Admission := do
  let b ← get
  if b.session.draft.routines.contains e.key then throw (.publicAlready b.unit e.key)
  updateDraft (·.addPrivate e.key)
  return .isLocal

/-- Declares a public routine as the ledger allows. -/
def declarePublic (e : Emission) (units : NameSet) (spliced : Bool) : Step Bench Admission := do
  let b ← get
  if b.session.draft.privateKeys.contains e.key then throw (.privateAlready b.unit e.key)
  let (admission, warning, d) ←
    lift (b.session.ledger.declare b.session.draft e.key e.params e.guards e.body spliced)
  set (b.withDraft d)
  warn warning
  if admission.isRecorded then updateDraft (·.addDependencies units.toList)
  return admission

/-- Hands a declared routine on: to the program, or to the list of those without effect. -/
def deliver (e : Emission) : Admission → Step Bench Unit
  | .inert =>
    modify fun b => { b with session := { b.session with inert := b.session.inert ++ [e] } }
  | _ => do
    let b ← get
    updateProgram (·.emit b.unit e)

/-- Declares one variant of a declaration. -/
def declareVariant (declaration : Declaration) (units : NameSet) (spliced : Bool)
    (v : Tree.Variant) : Step Bench Admission := do
  let e := variantEmission declaration v
  let admission ←
    if declaration.isPrivate then declarePrivate e else declarePublic e units spliced
  deliver e admission
  return admission

/-- Declares a routine, one variant for each arity, the smallest first; returns how each was
treated. -/
def define (store : Store) (declaration : Declaration) (spliced : Bool) :
    Step Bench (List Admission) := do
  let b ← get
  let (body, guards, units) ← lift (prepareAll store b.session.draft declaration)
  -- Fallback values enter the bodies of the smaller arities only here, as they were written.
  let variants := Tree.expandDefaults declaration.name declaration.params guards body
    b.session.config.stem
  let admissions ← variants.mapM (declareVariant declaration units spliced)
  if !units.isEmpty then updateProgram (·.require b.unit units.toList)
  return admissions

/-- Permits descendants to replace a routine. -/
def grant (key : Key) : Step Bench Unit := updateDraft (Ledger.grant · key)

/-- Keeps a routine from every descendant. -/
def withhold (key : Key) : Step Bench Unit := updateDraft (Ledger.withhold · key)

/-- Imports one routine of a published unit. -/
def importRoutine (source : Registry) (key : Key) : Step Bench Unit :=
  if source.routines.contains key then updateDraft (·.addImport key source.unit)
  else throw (.unknownRoutine source.unit key)

/-- Makes routines of a published unit callable by their bare names: the given ones, or all that it
passes on. -/
def importRoutines (store : Store) (source : Value) (keys : Option (List Key)) :
    Step Bench Unit := do
  let b ← get
  let registry ← lift (store.requireValue source b.unit)
  (keys.getD registry.routines.keys).forM (importRoutine registry)

/-- Sets the hooks that are executed in the units that extend this one. -/
def setHooks (pre post : Option Hook) : Step Bench Unit := updateDraft (·.setHooks pre post)

/-- Grants what an overridable declaration recorded. -/
def grantRecorded (name : String) : Nat → List Admission → Step Bench Unit
  | _, [] => pure ()
  | arity, admission :: admissions => do
    if admission.isRecorded then grant (Key.ofCount name arity)
    grantRecorded name (arity + 1) admissions

/-- Executes a statement; `spliced` says that it comes from a hook of the base. -/
def run (store : Store) (spliced : Bool) : Statement → Step Bench Unit
  | .define declaration => do
    let admissions ← define store declaration spliced
    if declaration.overridable then
      grantRecorded declaration.name (Tree.leastArity declaration.params) admissions
  | .grant key => grant key
  | .withhold key => withhold key

/-! ### Opening and closing -/

/-- Executes hooks of the base. -/
def splice (store : Store) (hooks : List Hook) : Step Bench Unit :=
  hooks.forM fun hook => hook.forM (run store true)

/-- Puts an inherited routine into the program, unless a hook has put one of its own there. -/
def emitInherited (e : Emission) : Step Bench Unit := do
  let b ← get
  match b.session.draft.routines.get? e.key with
  -- Nothing but a hook can have declared the key by now.
  | some ⟨_, _, _, .native, _⟩ => pure ()
  | _ => updateProgram (·.emit b.unit e)

/-- Puts everything that was inherited into the program. -/
def materialize (store : Store) (emissions : EmissionList) : Step Bench Unit := do
  splice store emissions.preHooks
  emissions.routines.forM emitInherited
  let b ← get
  updateProgram (·.require b.unit emissions.requires)
  splice store emissions.postHooks

/-- Ends the session: closes the draft and completes the unit in the program. -/
def close : Step Bench Registry := do
  let b ← get
  let (registry, d) ← lift b.session.draft.close
  -- The draft stays closed even if the program lacks a required unit.
  set (b.withDraft d)
  updateProgram (·.closeUnit b.unit registry)
  return registry

end Session

end Heredity
