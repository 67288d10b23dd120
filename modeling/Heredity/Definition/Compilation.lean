import Heredity.Definition.Schedule
import Heredity.Workspace

/-!
# Compiling definitions

A definition is compiled by a session of its own: it is opened, its imports, hooks and statements
are executed, and it is published.  `Definitions.compile` compiles many in the order of their
schedule; units that were published before an error stay published.
-/

namespace Heredity

namespace Definition

open Bench (lift)

/-- Executes everything that a definition says after its unit has been opened. -/
def declareAll (d : Definition) (store : Store) : Step Bench Unit := do
  d.imports.forM fun i => Session.importRoutines store i.1 i.2
  if d.preHook.isSome || d.postHook.isSome then Session.setHooks d.preHook d.postHook
  d.statements.forM (Session.run store false)

/-- Opens the unit of a definition. -/
def openUnit (config : Config) (d : Definition) : Step Site Session :=
  match d.base with
  | none => Site.openRoot config d.name (.map d.fields)
  | some base => Site.openExtension config d.name base (.map d.fields)

/-- Compiles a definition and publishes its registry. -/
def compile (config : Config) (d : Definition) : Step Site Registry := do
  let session ← openUnit config d
  let (result, session) ← Site.work session d.declareAll
  lift result
  let (result, _) ← Site.finish session
  lift result

end Definition

namespace Definitions

open Bench (lift)

/-- Compiles the units of the given names, one after the other. -/
def compileEach (config : Config) (ds : Definitions) :
    List String → Step Site (List (String × Registry))
  | [] => return []
  | name :: names =>
    match ds.get? name with
    | none => compileEach config ds names
    | some d => do
      let registry ← d.compile config
      let registries ← compileEach config ds names
      return (name, registry) :: registries

/-- Compiles all units in the order of their schedule. -/
def compile (config : Config) (ds : Definitions) : Step Site (List (String × Registry)) := do
  let site ← get
  let names ← lift (ds.schedule site.store)
  compileEach config ds names

end Definitions

end Heredity
