import Heredity.Session

/-!
# Workspaces

Sessions of several units work side by side on one store of published registries and one program.

* `Site` is what they share.  `Site.work` lets a session work on it.
* `Site.openRoot` and `Site.openExtension` open a session, `Site.finish` ends it and publishes the
  registry of its unit.
* `Workspace` is a site with the sessions that were opened on it, by unit.  A `Command` is one
  operation on one of them, `Workspace.perform` executes it, and `Workspace.Reachable` says which
  workspaces come about by commands, failing ones included.

A command that fails leaves behind what it had changed by then.
-/

namespace Heredity

/-- What the sessions of several units share. -/
structure Site where
  /-- The published registries. -/
  store : Store := ∅
  /-- The program. -/
  program : Program := ∅
  /-- The warnings issued so far. -/
  warnings : List Warning := []

namespace Site

open Bench (lift)

/-- Lets a session work; returns the outcome and the session as it is then. -/
def work {α : Type} (session : Session) (f : Store → Step Bench α) :
    StateM Site (Except Error α × Session) := fun site =>
  let (result, bench) := (f site.store).run.run ⟨session, site.program, site.warnings⟩
  ((result, bench.session),
    { site with program := bench.program, warnings := bench.warnings })

/-- Opens a unit in the program. -/
def openUnit (d : Draft) : Step Site Unit := do
  let site ← get
  let program ← lift (site.program.openUnit d.unit d.base d.fields)
  set { site with program := program }

/-- A session on a draft that has just been made. -/
def newSession (config : Config) (d : Draft) : Session := ⟨d, Ledger.ofDraft config d, []⟩

/-- Opens a unit that extends no other. -/
def openRoot (config : Config) (unit : String) (fields : Value) : Step Site Session := do
  let fields ← lift ((mergeFields ∅ fields).mapError .fault)
  let draft : Draft := { unit := unit, fields := fields }
  openUnit draft
  return newSession config draft

/-- Opens a unit that extends a published one.  What it inherits is in place before its own
declarations are taken. -/
def openExtension (config : Config) (unit base : String) (fields : Value) : Step Site Session := do
  let site ← get
  let registry ← lift (site.store.require base unit)
  let resolution ← lift (resolve registry fields unit config)
  -- From here on the unit stays in the program, even if a hook of the base fails.
  openUnit resolution.draft
  let (result, session) ← work (newSession config resolution.draft)
    fun store => Session.materialize store resolution.emissions
  lift result
  return session

/-- Publishes the registry of a unit. -/
def publish (registry : Registry) : Step Site Registry := do
  let site ← get
  let store ← lift (site.store.publish registry.unit registry)
  set { site with store := store }
  return registry

/-- Ends a session and publishes the registry of its unit; returns the session as it is then. -/
def finish (session : Session) : StateM Site (Except Error Registry × Session) := do
  let (result, session) ← work session fun _ => Session.close
  match result with
  | .ok registry => return (← (publish registry).run, session)
  | .error e => return (.error e, session)

end Site

/-- A site with the sessions that were opened on it. -/
structure Workspace extends Site where
  /-- The sessions by unit. -/
  sessions : Table String Session := ∅

/-- One operation on a workspace. -/
inductive Command where
  /-- Opens a root. -/
  | openRoot (config : Config) (unit : String) (fields : Value)
  /-- Opens an extension of a base. -/
  | openExtension (config : Config) (unit base : String) (fields : Value)
  /-- Declares a routine. -/
  | define (unit : String) (declaration : Declaration)
  /-- Permits descendants to replace a routine. -/
  | grant (unit : String) (key : Key)
  /-- Keeps a routine from every descendant. -/
  | withhold (unit : String) (key : Key)
  /-- Imports routines of a published unit. -/
  | importRoutines (unit : String) (source : Value) (keys : Option (List Key))
  /-- Sets the hooks of a unit. -/
  | setHooks (unit : String) (pre post : Option Hook)
  /-- Executes a statement. -/
  | run (unit : String) (statement : Statement) (spliced : Bool)
  /-- Ends a session and publishes its unit. -/
  | finish (unit : String)

/-- What a command answers. -/
inductive Reply where
  /-- Nothing but that it succeeded. -/
  | done
  /-- How each arity of a declaration was treated. -/
  | admitted (admissions : List Admission)
  /-- The registry that was published. -/
  | published (registry : Registry)

namespace Workspace

instance : EmptyCollection Workspace := ⟨{}⟩

/-- Opens a session on the site of a workspace and keeps it. -/
def opening (unit : String) (f : Step Site Session) : Step Workspace Reply := ExceptT.mk fun w =>
  let (result, site) := f.run.run w.toSite
  match result with
  | .ok session =>
    (.ok .done, { w with toSite := site, sessions := w.sessions.insert unit session })
  | .error e => (.error e, { w with toSite := site })

/-- Runs an operation of the session of a unit, which must have been opened. -/
def onSession {α : Type} (unit : String)
    (f : Session → StateM Site (Except Error α × Session)) : Step Workspace α := ExceptT.mk fun w =>
  match w.sessions.get? unit with
  | none => (.error (.fault .missingKey), w)
  | some session =>
    let ((result, session), site) := (f session).run w.toSite
    (result, { w with toSite := site, sessions := w.sessions.insert unit session })

/-- Executes a command. -/
def perform : Command → Step Workspace Reply
  | .openRoot config unit fields => opening unit (Site.openRoot config unit fields)
  | .openExtension config unit base fields =>
    opening unit (Site.openExtension config unit base fields)
  | .define unit declaration => do
    let admissions ← onSession unit fun s =>
      Site.work s fun store => Session.define store declaration false
    return .admitted admissions
  | .grant unit key => do
    onSession unit fun s => Site.work s fun _ => Session.grant key
    return .done
  | .withhold unit key => do
    onSession unit fun s => Site.work s fun _ => Session.withhold key
    return .done
  | .importRoutines unit source keys => do
    onSession unit fun s => Site.work s fun store => Session.importRoutines store source keys
    return .done
  | .setHooks unit pre post => do
    onSession unit fun s => Site.work s fun _ => Session.setHooks pre post
    return .done
  | .run unit statement spliced => do
    onSession unit fun s => Site.work s fun store => Session.run store spliced statement
    return .done
  | .finish unit => do
    let registry ← onSession unit Site.finish
    return .published registry

/-- The workspace after a command, whether it failed or not. -/
def after (w : Workspace) (command : Command) : Workspace := ((perform command).run.run w).2

/-- The outcome of a command. -/
def outcome (w : Workspace) (command : Command) : Except Error Reply :=
  ((perform command).run.run w).1

/-- The workspaces that come about by commands. -/
inductive Reachable : Workspace → Prop where
  /-- The empty workspace. -/
  | empty : Reachable ∅
  /-- What a command leaves behind. -/
  | after {w : Workspace} (command : Command) : Reachable w → Reachable (w.after command)

end Workspace

end Heredity
