import Heredity.Proofs.Inheritance
import Heredity.Proofs.Operations

/-!
# Workspaces

Sessions share a store and a program, and a command works on one of them.  This file carries what
is known of one session over to workspaces that any commands have led to.

* `Writing.Attained` — the units in writing that come about at all: a root or an extension that was
  opened, and the unit's own events after that.  The definition goes down the chain of bases, so it
  is also what inductions along lineages are on.
* `Bench.Alone` — where a session has worked, only the image of its unit has been written.
* `Workspace.Coherent` — every session has an image in the program and is attained with it, and
  every published registry is what a closed session holds.
* `Workspace.Reachable.coherent` — every workspace that commands lead to is coherent.
* `Coherent.session_after` — what any command does to a session is a trace of events that it allows,
  and no event at all if the command is for another unit.

**Sessions stay.**  A unit is opened once in a program, so a command that opens a unit again fails
before it changes anything, and a session is never replaced by a new one.
-/

namespace Heredity

open Step (exec)

/-- A unit in writing that comes about by commands. -/
inductive Writing.Attained : Writing → Prop where
  /-- A root has just been opened. -/
  | root (config : Config) (unit : String) (fields : Table Value Value) :
      Attained (.opened config { unit := unit, fields := fields })
  /-- An extension of a closed unit has been opened: `pre` and `post` are the events of the hooks
  that the base set, between them stand those that put in place what is inherited. -/
  | extension {config : Config} {unit : String} {fields : Value} {base w : Writing}
      {resolution : Resolution} {pre post : List Event} (attained : Attained base)
      (closed : base.draft.closed = true)
      (resolved : resolve base.draft.toRegistry fields unit config = .ok resolution)
      (ownPre : ∀ event ∈ pre, event.isOwn = true) (ownPost : ∀ event ∈ post, event.isOwn = true)
      (trace : Trace (.opened config resolution.draft)
        (pre ++ (resolution.emissions.routines.map .inherit ++
          (.require resolution.emissions.requires :: post))) w) :
      Attained w
  /-- An own event. -/
  | move {w w' : Writing} {event : Event} (attained : Attained w) (own : event.isOwn = true)
      (move : Moves w event w') : Attained w'

/-- Own events lead from an attained unit to an attained one. -/
theorem Writing.Attained.trace {w w' : Writing} {events : List Event} (h : w.Attained)
    (own : ∀ event ∈ events, event.isOwn = true) (trace : Trace w events w') : w'.Attained :=
  trace.invariant (fun _ _ _ member move attained => .move attained (own _ member) move) h

/-- **Records.**  What holds of every record that a unit can make and is kept by grants and by
inheritance holds of all records of every unit in writing. -/
theorem Writing.Attained.records {Q : Key → RoutineRecord → Prop} {w : Writing} (h : w.Attained)
    (own : ∀ e : Emission, e.Made → Q e.key e.record)
    (permit : ∀ {key r}, Q key r → Q key { r with permitted := true })
    (agree : ∀ {key key' r}, (key == key') = true → Q key r → Q key' r)
    (inherit : ∀ {config base key r r' needs}, inheritRoutine config base key r = .ok (r', needs) →
      Q key r → Q key r') :
    ∀ key r, w.draft.routines.get? key = some r → Q key r := by
  induction h with
  | root config unit fields => exact fun _ _ recorded => nomatch recorded
  | extension attained closed resolved ownPre ownPost trace ih =>
    refine trace.invariant (I := fun w => ∀ key r, w.draft.routines.get? key = some r → Q key r)
      (fun _ _ _ _ move => move.records own permit agree) ?_
    intro key r' recorded
    obtain ⟨r, needs, original, -, becomes⟩ := (get?_inherited_iff resolved).1 recorded
    exact inherit becomes (ih key r original)
  | move attained isOwn move ih => exact move.records own permit agree ih

/-- What holds in a workspace between its sessions, its program and its store. -/
structure Workspace.Coherent (w : Workspace) : Prop where
  /-- A session writes the unit that it is kept under, and the program holds an image of it. -/
  session : ∀ {unit : String} {s : Session}, w.sessions.get? unit = some s →
    s.draft.unit = unit ∧
      ∃ image, w.program.units.get? unit = some image ∧ Writing.Attained ⟨s, image⟩
  /-- A published registry is what a closed session holds. -/
  published : ∀ {unit : String} {registry : Registry}, w.store.get? unit = some registry →
    ∃ s, w.sessions.get? unit = some s ∧ s.draft.closed = true ∧ s.draft.toRegistry = registry
  /-- The image of a published unit is complete. -/
  completed : ∀ {unit : String} {registry : Registry} {s : Session} {image : Image},
    w.store.get? unit = some registry → w.sessions.get? unit = some s →
    w.program.units.get? unit = some image → Writing.Complete ⟨s, image⟩

/-- The unit that a command is for. -/
def Command.unit : Command → String
  | .openRoot _ unit _ => unit
  | .openExtension _ unit _ _ => unit
  | .define unit _ => unit
  | .grant unit _ => unit
  | .withhold unit _ => unit
  | .importRoutines unit _ _ => unit
  | .setHooks unit _ _ => unit
  | .run unit _ _ => unit
  | .finish unit => unit

/-- Whether a command declares something. -/
def Command.isDeclaration : Command → Bool
  | .define .. => true
  | .run _ (.define _) _ => true
  | _ => false

/-- The events that a command may lead to: those of the unit itself, and declarations only if it
declares something. -/
def Command.Allows (command : Command) (event : Event) : Prop :=
  event.isOwn = true ∧ (event.isDeclaration = true → command.isDeclaration = true)

/-! ## Opening -/

namespace Site

variable {site : Site} {config : Config} {unit base : String} {fields : Value}

/-- A session works on what the site shares, and the site takes it back. -/
theorem exec_work_bind {α β : Type} (s : Session) (f : Store → Step Bench α)
    (k : Except Error α × Session → Step Site β) (site : Site) :
    exec ((liftM (work s f) : Step Site (Except Error α × Session)) >>= k) site =
      match exec (f site.store) ⟨s, site.program, site.warnings⟩ with
      | (result, b) =>
        exec (k (result, b.session)) { site with program := b.program, warnings := b.warnings } :=
  rfl

/-- What a session works at is a step at its bench. -/
theorem run_work {α : Type} {s : Session} {f : Store → Step Bench α} {result : Except Error α}
    {b : Bench} (h : exec (f site.store) ⟨s, site.program, site.warnings⟩ = (result, b)) :
    (work s f).run site =
      ((result, b.session), { site with program := b.program, warnings := b.warnings }) :=
  congrArg (fun r : Except Error α × Bench =>
    ((r.1, r.2.session),
      ({ site with program := r.2.program, warnings := r.2.warnings } : Site))) h

/-- The site after a unit has been opened in its program. -/
def loading (site : Site) (d : Draft) : Site :=
  { site with program := site.program.setImage d.unit { base := d.base, fields := d.fields } }

theorem exec_openUnit (site : Site) (d : Draft) :
    exec (openUnit d) site =
      if site.program.contains d.unit then (.error (.alreadyLoaded d.unit), site)
      else (.ok ⟨⟩, site.loading d) := by
  unfold openUnit
  rw [Step.exec_get_bind, Program.openUnit]
  split <;> rfl

/-- **Opening a root** merges its fields and loads the unit, or is refused in one of the two steps.
-/
theorem exec_openRoot (site : Site) (config : Config) (unit : String) (fields : Value) :
    exec (openRoot config unit fields) site =
      match (mergeFields ∅ fields).mapError Error.fault with
      | .error e => (.error e, site)
      | .ok merged =>
        if site.program.contains unit then (.error (.alreadyLoaded unit), site)
        else (.ok (newSession config { unit := unit, fields := merged }),
          site.loading { unit := unit, fields := merged }) := by
  unfold openRoot
  cases (mergeFields ∅ fields).mapError Error.fault with
  | error e => rfl
  | ok merged =>
    rw [Step.exec_lift_ok_bind]
    dsimp only
    rw [Step.exec_bind, exec_openUnit]
    cases site.program.contains unit <;> rfl

/-- Where the fields are well-formed, opening a root that was not opened before loads it. -/
theorem exec_openRoot_of_merge {merged : Table Value Value}
    (merges : mergeFields ∅ fields = .ok merged) (fresh : site.program.contains unit = false) :
    exec (openRoot config unit fields) site =
      (.ok (newSession config { unit := unit, fields := merged }),
        site.loading { unit := unit, fields := merged }) := by
  rw [exec_openRoot, merges]
  dsimp only [Except.mapError]
  rw [fresh, if_neg Bool.false_ne_true]

/-- Opening a root loads it, or is refused and changes nothing. -/
theorem exec_openRoot_cases (site : Site) (config : Config) (unit : String) (fields : Value) :
    (∃ error, exec (openRoot config unit fields) site = (.error error, site) ∧
        error.isUnresolved = false) ∨
      ∃ merged, site.program.contains unit = false ∧
        exec (openRoot config unit fields) site =
          (.ok (newSession config { unit := unit, fields := merged }),
            site.loading { unit := unit, fields := merged }) := by
  rw [exec_openRoot]
  cases merging : (mergeFields ∅ fields).mapError Error.fault with
  | error error => exact .inl ⟨error, rfl, Served.mapError_fault _ error merging⟩
  | ok merged =>
    dsimp only
    cases site.program.contains unit with
    | true => exact .inl ⟨_, rfl, rfl⟩
    | false => exact .inr ⟨merged, rfl, rfl⟩

/-- A root has the fields that it is opened with. -/
theorem mergeFields_of_openRoot {merged : Table Value Value}
    (done : (exec (openRoot config unit fields) site).1 =
      .ok (newSession config { unit := unit, fields := merged })) :
    mergeFields ∅ fields = .ok merged := by
  rw [exec_openRoot] at done
  cases merging : mergeFields ∅ fields with
  | error fault =>
    rw [merging] at done
    cases done
  | ok merged' =>
    rw [merging] at done
    dsimp only [Except.mapError] at done
    split at done
    · cases done
    · cases done
      rfl

/-- The bench on which what a new extension inherits is put in place. -/
def openingBench (site : Site) (config : Config) (d : Draft) : Bench :=
  ⟨newSession config d, (site.loading d).program, site.warnings⟩

theorem openingBench_shows (site : Site) (config : Config) (d : Draft) :
    (site.openingBench config d).Shows (.opened config d) :=
  ⟨rfl, by
    show (site.program.setImage d.unit _).units.get? d.unit = _
    rw [Program.get?_setImage, if_pos rfl]
    rfl⟩

/-- Opens an extension for which everything has been computed, and puts the given in place. -/
def openResolved (config : Config) (draft : Draft) (emissions : EmissionList) :
    Step Site Session := do
  openUnit draft
  let (result, session) ← work (newSession config draft)
    fun store => Session.materialize store emissions
  Bench.lift result
  return session

theorem exec_openResolved (site : Site) (config : Config) (draft : Draft)
    (emissions : EmissionList) :
    exec (openResolved config draft emissions) site =
      if site.program.contains draft.unit then (.error (.alreadyLoaded draft.unit), site)
      else
        let (result, b) := exec (Session.materialize site.store emissions)
          (site.openingBench config draft)
        (result.map fun _ => b.session,
          { site with program := b.program, warnings := b.warnings }) := by
  unfold openResolved
  rw [Step.exec_bind, exec_openUnit]
  cases site.program.contains draft.unit with
  | true => rfl
  | false =>
    rw [if_neg Bool.false_ne_true, if_neg Bool.false_ne_true]
    cases put : exec (Session.materialize site.store emissions)
      (site.openingBench config draft) with
    | mk result b =>
      have put' : exec (Session.materialize (site.loading draft).store emissions)
          ⟨newSession config draft, (site.loading draft).program, (site.loading draft).warnings⟩ =
            (result, b) := put
      show exec (liftM (work _ _) >>= _) (site.loading draft) = _
      rw [exec_work_bind, put']
      cases result <;> rfl

/-- What an extension inherits is computed before it is opened. -/
theorem exec_openExtension_of_resolved {registry : Registry} {resolution : Resolution}
    (published : site.store.get? base = some registry)
    (resolved : resolve registry fields unit config = .ok resolution) :
    exec (openExtension config unit base fields) site =
      exec (openResolved config resolution.draft resolution.emissions) site := by
  unfold openExtension
  rw [Step.exec_get_bind, Store.require, published, Step.exec_lift_ok_bind, resolved,
    Step.exec_lift_ok_bind]
  rfl

/-- **Opening an extension** looks the base up, computes what is inherited, loads the unit and puts
everything in place.  It is refused in the first three steps, or keeps what the last one leaves. -/
theorem exec_openExtension (site : Site) (config : Config) (unit base : String) (fields : Value) :
    exec (openExtension config unit base fields) site =
      match site.store.get? base with
      | none => (.error (.unresolvedBase unit (.text base)), site)
      | some registry =>
        match resolve registry fields unit config with
        | .error e => (.error e, site)
        | .ok resolution =>
          if site.program.contains resolution.draft.unit then
            (.error (.alreadyLoaded resolution.draft.unit), site)
          else
            let (result, b) := exec (Session.materialize site.store resolution.emissions)
              (site.openingBench config resolution.draft)
            (result.map fun _ => b.session,
              { site with program := b.program, warnings := b.warnings }) := by
  cases published : site.store.get? base with
  | none =>
    unfold openExtension
    rw [Step.exec_get_bind, Store.require, published]
    rfl
  | some registry =>
    dsimp only
    cases resolved : resolve registry fields unit config with
    | error e =>
      unfold openExtension
      rw [Step.exec_get_bind, Store.require, published, Step.exec_lift_ok_bind, resolved]
      rfl
    | ok resolution =>
      rw [exec_openExtension_of_resolved published resolved, exec_openResolved]

/-- Where what is inherited can be computed, opening an extension that was not opened before puts
it in place. -/
theorem exec_openExtension_of_resolve {registry : Registry} {resolution : Resolution}
    (published : site.store.get? base = some registry)
    (resolved : resolve registry fields unit config = .ok resolution)
    (fresh : site.program.contains resolution.draft.unit = false) {result : Except Error Unit}
    {b : Bench} (put : exec (Session.materialize site.store resolution.emissions)
      (site.openingBench config resolution.draft) = (result, b)) :
    exec (openExtension config unit base fields) site =
      (result.map fun _ => b.session,
        { site with program := b.program, warnings := b.warnings }) := by
  rw [exec_openExtension, published]
  dsimp only
  rw [resolved]
  dsimp only
  rw [fresh, if_neg Bool.false_ne_true, put]

/-- Opening an extension loads it and puts in place what it inherits, or is refused and changes
nothing.  If a hook fails, the unit stays loaded. -/
theorem exec_openExtension_cases (site : Site) (config : Config) (unit base : String)
    (fields : Value) :
    (∃ error, exec (openExtension config unit base fields) site = (.error error, site) ∧
        (error.isUnresolved = true → site.store.get? base = none)) ∨
      ∃ registry resolution result b', site.store.get? base = some registry ∧
        resolve registry fields unit config = .ok resolution ∧
        site.program.contains resolution.draft.unit = false ∧
        exec (Session.materialize site.store resolution.emissions)
          (site.openingBench config resolution.draft) = (result, b') ∧
        exec (openExtension config unit base fields) site =
          (result.map fun _ => b'.session,
            { site with program := b'.program, warnings := b'.warnings }) := by
  rw [exec_openExtension]
  cases found : site.store.get? base with
  | none => exact .inl ⟨_, rfl, fun _ => rfl⟩
  | some registry =>
    dsimp only
    cases resolved : resolve registry fields unit config with
    | error error =>
      have served := served_resolve registry fields unit config error resolved
      exact .inl ⟨error, rfl, fun lacking => absurd lacking (Bool.eq_false_iff.1 served)⟩
    | ok resolution =>
      dsimp only
      split
      · exact .inl ⟨_, rfl, fun lacking => absurd lacking Bool.false_ne_true⟩
      · next fresh =>
        rw [Bool.not_eq_true] at fresh
        exact .inr ⟨registry, resolution, _, _, rfl, resolved, fresh, rfl, rfl⟩

end Site

/-- A session has worked on a bench of a site, and has written the image of its unit only. -/
structure Bench.Alone (site : Site) (name : String) (b : Bench) : Prop where
  /-- The unit has the given name. -/
  unit : b.unit = name
  /-- The unit is loaded. -/
  loaded : b.Loaded
  /-- The other images are those of the site. -/
  elsewhere : ∀ u, u ≠ name → b.program.units.get? u = site.program.units.get? u

theorem Bench.Alone.runs {site : Site} {name : String} {b b' : Bench} {events : List Event}
    (h : b.Alone site name) (runs : b.Runs events b') : b'.Alone site name := by
  refine ⟨runs.unit_eq.trans h.unit, runs.loaded, fun u other => ?_⟩
  obtain ⟨_, _, -, -, -, elsewhere⟩ := runs
  exact (elsewhere u (h.unit.symm ▸ other)).trans (h.elsewhere u other)

theorem Site.openingBench_alone (site : Site) (config : Config) (d : Draft) :
    (site.openingBench config d).Alone site d.unit where
  unit := rfl
  loaded := (site.openingBench_shows config d).loaded
  elsewhere u other := by
    show (site.program.setImage d.unit _).units.get? u = _
    rw [Program.get?_setImage, if_neg (Ne.symm other)]

/-- Whether a hook fails or not, what is put in place stays in the image of the new unit. -/
theorem Site.alone_of_materialize {site : Site} {config : Config} {d : Draft} {store : Store}
    {emissions : EmissionList} {result : Except Error Unit} {b : Bench}
    (put : exec (Session.materialize store emissions) (site.openingBench config d) = (result, b)) :
    b.Alone site d.unit := by
  have alone := site.openingBench_alone config d
  obtain ⟨events, runs⟩ := Session.materialize_runs alone.loaded store emissions
  rw [put] at runs
  exact alone.runs runs

/-! ## Commands -/

namespace Workspace

/-- The bench of a session. -/
def bench (w : Workspace) (s : Session) : Bench := ⟨s, w.program, w.warnings⟩

/-- The workspace after the session of a unit has worked. -/
def withBench (w : Workspace) (unit : String) (b : Bench) : Workspace :=
  { w with
    program := b.program
    warnings := b.warnings
    sessions := w.sessions.insert unit b.session }

end Workspace

/-- What a command makes a session do; opening and finishing are not the session's own doing. -/
def Command.work? (store : Store) : Command → Option (Step Bench Reply)
  | .define _ declaration => some do
    let admissions ← Session.define store declaration false
    return .admitted admissions
  | .grant _ key => some do
    Session.grant key
    return .done
  | .withhold _ key => some do
    Session.withhold key
    return .done
  | .importRoutines _ source keys => some do
    Session.importRoutines store source keys
    return .done
  | .setHooks _ pre post => some do
    Session.setHooks pre post
    return .done
  | .run _ statement spliced => some do
    Session.run store spliced statement
    return .done
  | .openRoot .. | .openExtension .. | .finish _ => none

namespace Workspace

/-- A session takes its part of the workspace and gives it back. -/
theorem exec_onSession {α : Type} {w : Workspace} {unit : String} {s : Session}
    (session : w.sessions.get? unit = some s)
    (f : Session → StateM Site (Except Error α × Session)) :
    exec (onSession unit f) w =
      (((f s).run w.toSite).1.1,
        { w with
          toSite := ((f s).run w.toSite).2
          sessions := w.sessions.insert unit ((f s).run w.toSite).1.2 }) := by
  rw [exec, onSession, ExceptT.run_mk, StateT.run, session]
  rfl

theorem exec_onSession_of_missing {α : Type} {w : Workspace} {unit : String}
    (missing : w.sessions.get? unit = none)
    (f : Session → StateM Site (Except Error α × Session)) :
    exec (onSession unit f) w = (.error (.fault .missingKey), w) := by
  rw [exec, onSession, ExceptT.run_mk, StateT.run, missing]

theorem exec_onSession_work {α : Type} (unit : String) (f : Store → Step Bench α)
    (k : α → Reply) (w : Workspace) :
    exec (onSession unit (fun s => Site.work s f) >>= fun a => pure (k a)) w =
      match w.sessions.get? unit with
      | none => (.error (.fault .missingKey), w)
      | some s =>
        let r := exec (f w.store >>= fun a => pure (k a)) (w.bench s)
        (r.1, w.withBench unit r.2) := by
  cases session : w.sessions.get? unit with
  | none => exact Step.exec_bind_of_error (exec_onSession_of_missing session _) _
  | some s =>
    dsimp only
    cases worked : exec (f w.store) (w.bench s) with
    | mk result b =>
      rw [Step.exec_bind, exec_onSession session, Site.run_work worked, Step.exec_bind, worked]
      cases result <;> rfl

/-- A command on a session lets it work, if it has been opened. -/
theorem exec_perform_of_work {w : Workspace} {command : Command} {m : Step Bench Reply}
    (h : command.work? w.store = some m) :
    exec (perform command) w =
      match w.sessions.get? command.unit with
      | none => (.error (.fault .missingKey), w)
      | some s => ((exec m (w.bench s)).1, w.withBench command.unit (exec m (w.bench s)).2) := by
  cases command with
  | openRoot | openExtension | finish => cases h
  | define unit declaration =>
    cases h
    exact exec_onSession_work unit (fun store => Session.define store declaration false) _ w
  | grant unit key =>
    cases h
    exact exec_onSession_work unit (fun _ => Session.grant key) _ w
  | withhold unit key =>
    cases h
    exact exec_onSession_work unit (fun _ => Session.withhold key) _ w
  | importRoutines unit source keys =>
    cases h
    exact exec_onSession_work unit (fun store => Session.importRoutines store source keys) _ w
  | setHooks unit pre post =>
    cases h
    exact exec_onSession_work unit (fun _ => Session.setHooks pre post) _ w
  | run unit statement spliced =>
    cases h
    exact exec_onSession_work unit (fun store => Session.run store spliced statement) _ w

/-- Opening keeps the session of the unit with the others, if it succeeds. -/
theorem exec_opening (unit : String) (f : Step Site Session) (w : Workspace) :
    exec (opening unit f) w =
      match exec f w.toSite with
      | (.ok s, site) =>
        (.ok .done, { w with toSite := site, sessions := w.sessions.insert unit s })
      | (.error e, site) => (.error e, { w with toSite := site }) := by
  cases opened : exec f w.toSite with
  | mk result site =>
    have run : f.run.run w.toSite = (result, site) := opened
    show StateT.run (opening unit f).run w = _
    unfold opening
    rw [ExceptT.run_mk, StateT.run, run]
    cases result <;> rfl

theorem exec_opening_of_ok (unit : String) {f : Step Site Session} {w : Workspace} {s : Session}
    {site : Site} (opened : exec f w.toSite = (.ok s, site)) :
    exec (opening unit f) w =
      (.ok .done, { w with toSite := site, sessions := w.sessions.insert unit s }) := by
  rw [exec_opening, opened]

/-- The store after a registry has been published. -/
def publishing (w : Workspace) (registry : Registry) : Workspace :=
  { w with store := ⟨w.store.published.insert registry.unit registry⟩ }

theorem exec_publish (registry : Registry) (site : Site) :
    exec (Site.publish registry) site =
      if site.store.published.contains registry.unit then
        (.error (.alreadyPublished registry.unit), site)
      else (.ok registry,
        { site with store := ⟨site.store.published.insert registry.unit registry⟩ }) := by
  unfold Site.publish
  rw [Step.exec_get_bind, Store.publish, if_neg (by simp)]
  cases site.store.published.contains registry.unit <;> rfl

theorem exec_publish_cases (registry : Registry) (site : Site) :
    (∃ error, exec (Site.publish registry) site = (.error error, site) ∧
        error.isUnresolved = false) ∨
      (site.store.get? registry.unit = none ∧
        exec (Site.publish registry) site = (.ok registry,
          { site with store := ⟨site.store.published.insert registry.unit registry⟩ })) := by
  rw [exec_publish]
  cases published : site.store.published.contains registry.unit with
  | true => exact .inl ⟨_, rfl, rfl⟩
  | false => exact .inr ⟨(Table.get?_eq_none_iff _ _).2 published, rfl⟩

end Workspace

/-- Finishing closes the session and, if that succeeds, publishes the registry. -/
theorem Site.run_finish (s : Session) (site : Site) :
    (Site.finish s).run site =
      match exec Session.close ⟨s, site.program, site.warnings⟩ with
      | (.error e, b) =>
        ((.error e, b.session), { site with program := b.program, warnings := b.warnings })
      | (.ok registry, b) =>
        match exec (Site.publish registry)
            { site with program := b.program, warnings := b.warnings } with
        | (result, site) => ((result, b.session), site) := by
  cases closing : exec Session.close ⟨s, site.program, site.warnings⟩ with
  | mk result b =>
    unfold finish
    rw [StateT.run_bind, Site.run_work closing]
    cases result <;> rfl

namespace Workspace

theorem exec_perform_finish {w : Workspace} {unit : String} {s : Session}
    (session : w.sessions.get? unit = some s) :
    exec (perform (.finish unit)) w =
      match exec Session.close (w.bench s) with
      | (.error e, b) => (.error e, w.withBench unit b)
      | (.ok registry, b) =>
        match exec (Site.publish registry) (w.withBench unit b).toSite with
        | (result, site) =>
          (result.map Reply.published, { w.withBench unit b with toSite := site }) := by
  show exec (onSession unit Site.finish >>= fun registry => pure (Reply.published registry)) w = _
  rw [Step.exec_bind, exec_onSession session, Site.run_finish]
  unfold bench
  cases exec Session.close ⟨s, w.program, w.warnings⟩ with
  | mk result b =>
    cases result with
    | error e => rfl
    | ok registry =>
      have shared : (w.withBench unit b).toSite =
          { w.toSite with program := b.program, warnings := b.warnings } := rfl
      dsimp only
      rw [shared]
      cases exec (Site.publish registry)
        { w.toSite with program := b.program, warnings := b.warnings } with
      | mk result site => cases result <;> rfl

/-- A unit without a session cannot be finished. -/
theorem exec_finish_of_missing {w : Workspace} {unit : String}
    (missing : w.sessions.get? unit = none) :
    exec (perform (.finish unit)) w = (.error (.fault .missingKey), w) :=
  Step.exec_bind_of_error (exec_onSession_of_missing missing Site.finish) _

/-- Finishing publishes what the session wrote, or fails before anything is published. -/
theorem exec_finish_cases {w : Workspace} {unit : String} {s : Session}
    (session : w.sessions.get? unit = some s) (loaded : (w.bench s).Loaded) :
    (∃ error b' events, exec (perform (.finish unit)) w = (.error error, w.withBench unit b') ∧
        (w.bench s).Runs events b' ∧ ∀ event ∈ events, (Command.finish unit).Allows event) ∨
      ∃ b' registry, exec (perform (.finish unit)) w =
          (.ok (.published registry), (w.withBench unit b').publishing registry) ∧
        (w.bench s).Runs [.close, .complete] b' ∧ b'.session.draft.closed = true ∧
        b'.session.draft.toRegistry = registry ∧ w.store.get? registry.unit = none := by
  rw [exec_perform_finish session]
  rcases Session.close_runs loaded with
    ⟨error, failed, -⟩ | ⟨image, b', -, -, failed, runs⟩ |
      ⟨registry, b', done, runs, closed, written⟩
  · exact .inl ⟨error, _, [], by rw [failed], .refl loaded, by simp⟩
  · exact .inl ⟨_, b', _, by rw [failed], runs, by
      simp [Command.Allows, Event.isOwn, Event.isDeclaration]⟩
  · rw [done]
    rcases exec_publish_cases registry (w.withBench unit b').toSite with
      ⟨error, refused, -⟩ | ⟨unpublished, published⟩
    · refine .inl ⟨error, b', _, ?_, runs, by
        simp [Command.Allows, Event.isOwn, Event.isDeclaration]⟩
      dsimp only
      rw [refused]
      rfl
    · refine .inr ⟨b', registry, ?_, runs, closed, written, unpublished⟩
      dsimp only
      rw [published]
      rfl

end Workspace

/-- What a session works at are events that the command allows. -/
theorem Command.work?_performs {command : Command} {store : Store} {m : Step Bench Reply}
    (h : command.work? store = some m) : Step.Performs command.Allows m := by
  have answers : ∀ reply : Reply, Step.Performs command.Allows (pure reply : Step Bench Reply) :=
    fun _ => .of_unchanged fun _ => rfl
  have other : ∀ event : Event, event.isOwn = true → event.isDeclaration = false →
      command.Allows event := by
    intro event own silent
    refine ⟨own, fun declares => ?_⟩
    rw [silent] at declares
    cases declares
  cases command with
  | openRoot | openExtension | finish => cases h
  | define unit declaration =>
    cases h
    refine Step.Performs.bind ?_ fun _ => answers _
    exact (Session.define_performs store declaration false).mono fun _ own => ⟨own, fun _ => rfl⟩
  | grant unit key =>
    cases h
    refine Step.Performs.bind ?_ fun _ => answers _
    exact (Session.grant_performs key).mono fun _ h => h ▸ other _ rfl rfl
  | withhold unit key =>
    cases h
    refine Step.Performs.bind ?_ fun _ => answers _
    exact (Session.withhold_performs key).mono fun _ h => h ▸ other _ rfl rfl
  | importRoutines unit source keys =>
    cases h
    refine Step.Performs.bind ?_ fun _ => answers _
    exact (Session.importRoutines_performs store source keys).mono
      fun _ ⟨_, _, h⟩ => h ▸ other _ rfl rfl
  | setHooks unit pre post =>
    cases h
    refine Step.Performs.bind ?_ fun _ => answers _
    exact (Session.setHooks_performs pre post).mono fun _ h => h ▸ other _ rfl rfl
  | run unit statement spliced =>
    cases h
    refine Step.Performs.bind ?_ fun _ => answers _
    cases statement with
    | define declaration =>
      exact (Session.run_performs store spliced _).mono fun _ own => ⟨own, fun _ => rfl⟩
    | grant key => exact (Session.grant_performs key).mono fun _ h => h ▸ other _ rfl rfl
    | withhold key => exact (Session.withhold_performs key).mono fun _ h => h ▸ other _ rfl rfl

/-- The draft of a resolution belongs to the extension, extends the base, and withholds what the
base withholds; nothing else is passed on but routines and hooks. -/
theorem draft_of_resolve {config : Config} {base : Registry} {fields : Value} {unit : String}
    {resolution : Resolution} (h : resolve base fields unit config = .ok resolution) :
    resolution.draft.unit = unit ∧ resolution.draft.base = some base.unit ∧
      resolution.draft.privateKeys = ∅ ∧ resolution.draft.imports = ∅ ∧
      resolution.draft.withheld = base.withheld ∧ resolution.draft.closed = false := by
  obtain ⟨merged, routines, -, -, draft, -⟩ := resolve_eq_ok h
  rw [draft]
  exact ⟨rfl, rfl, rfl, rfl, rfl, rfl⟩

namespace Workspace

/-- **What a command can do.** -/
inductive Changes (w : Workspace) (command : Command) (w' : Workspace) : Prop where
  /-- It is refused and changes nothing. -/
  | refused (same : w' = w)
  /-- A unit has been loaded that has no session, since a hook of its base failed. -/
  | stuck (fresh : w.program.contains command.unit = false)
      (sessions : w'.sessions = w.sessions) (store : w'.store = w.store)
      (elsewhere : ∀ unit, unit ≠ command.unit →
        w'.program.units.get? unit = w.program.units.get? unit)
  /-- A unit has been opened. -/
  | opened {s : Session} {image : Image} (fresh : w.program.contains command.unit = false)
      (sessions : w'.sessions = w.sessions.insert command.unit s) (store : w'.store = w.store)
      (unit : s.draft.unit = command.unit)
      (held : w'.program.units.get? command.unit = some image)
      (attained : Writing.Attained ⟨s, image⟩)
      (elsewhere : ∀ unit, unit ≠ command.unit →
        w'.program.units.get? unit = w.program.units.get? unit)
  /-- A session has worked, and its unit may have been published. -/
  | worked {s : Session} {b : Bench} {events : List Event}
      (session : w.sessions.get? command.unit = some s) (runs : (w.bench s).Runs events b)
      (allowed : ∀ event ∈ events, command.Allows event)
      (sessions : w'.sessions = w.sessions.insert command.unit b.session)
      (program : w'.program = b.program)
      (store : w'.store = w.store ∨
        (events = [.close, .complete] ∧ b.session.draft.closed = true ∧
          w.store.get? b.session.draft.unit = none ∧
          w'.store = ⟨w.store.published.insert b.session.draft.unit b.session.draft.toRegistry⟩))

variable {w : Workspace}

/-- The unit of a session is loaded. -/
theorem Coherent.loaded (h : w.Coherent) {unit : String} {s : Session}
    (session : w.sessions.get? unit = some s) : (w.bench s).Loaded := by
  obtain ⟨rfl, image, held, -⟩ := h.session session
  exact ⟨image, held⟩

/-- An extension is opened with what it inherits in place, or its opening is refused, or it gets
stuck. -/
theorem Coherent.changes_openExtension (h : w.Coherent) (config : Config) (unit base : String)
    (fields : Value) :
    w.Changes (.openExtension config unit base fields)
      (w.after (.openExtension config unit base fields)) := by
  show w.Changes _ (exec (opening unit (Site.openExtension config unit base fields)) w).2
  rw [exec_opening]
  rcases Site.exec_openExtension_cases w.toSite config unit base fields with
    ⟨error, failed, -⟩ | ⟨registry, resolution, result, b, published, resolved, fresh, put, opened⟩
  · rw [failed]
    exact .refused rfl
  · obtain ⟨rfl, -⟩ := draft_of_resolve resolved
    have shows' := w.toSite.openingBench_shows config resolution.draft
    obtain ⟨s, session, closed, rfl⟩ := h.published published
    obtain ⟨-, image, -, attained⟩ := h.session session
    have elsewhere : ∀ {events : List Event},
        (w.toSite.openingBench config resolution.draft).Runs events b →
        ∀ u, u ≠ resolution.draft.unit →
          b.program.units.get? u = w.program.units.get? u := by
      intro events runs u hu
      obtain ⟨-, -, -, -, -, elsewhere⟩ := runs
      rw [elsewhere u hu]
      exact (Program.get?_setImage _ _ _ _).trans (if_neg (Ne.symm hu))
    rw [opened]
    obtain ⟨pre, post, ownPre, ownPost, outcome⟩ :=
      Session.materialize_performs shows'.loaded w.store resolution.emissions
        (Session.splice_performs _ _) (Session.splice_performs _ _)
    rcases outcome with ⟨error, b', failed, events, runs⟩ | ⟨b', done, runs⟩
    · cases put.symm.trans failed
      exact .stuck fresh rfl rfl (elsewhere runs)
    · cases put.symm.trans done
      have elsewhere' := elsewhere runs
      obtain ⟨w₁, ⟨s', image'⟩, shows₁, ⟨rfl, held⟩, trace, -⟩ := runs
      obtain rfl := shows'.unique shows₁
      have unit : b.session.draft.unit = resolution.draft.unit := trace.unit_eq
      rw [Bench.unit, unit] at held
      exact .opened fresh rfl rfl unit held
        (.extension attained closed resolved ownPre ownPost trace) elsewhere'

/-- **Every command** does one of these things. -/
theorem Coherent.changes (h : w.Coherent) (command : Command) :
    w.Changes command (w.after command) := by
  have works : ∀ m, command.work? w.store = some m → w.Changes command (w.after command) := by
    intro m isWork
    show w.Changes _ (exec (perform command) w).2
    rw [exec_perform_of_work isWork]
    cases session : w.sessions.get? command.unit with
    | none => exact .refused rfl
    | some s =>
      obtain ⟨events, runs, allowed⟩ := Command.work?_performs isWork _ (h.loaded session)
      exact .worked session runs allowed rfl rfl (.inl rfl)
  cases command with
  | openExtension config unit base fields => exact h.changes_openExtension config unit base fields
  | openRoot config unit fields =>
    show w.Changes _ (exec (opening unit (Site.openRoot config unit fields)) w).2
    rw [exec_opening]
    rcases Site.exec_openRoot_cases w.toSite config unit fields with
      ⟨error, failed, -⟩ | ⟨merged, fresh, opened⟩
    · rw [failed]
      exact .refused rfl
    · rw [opened]
      exact .opened fresh rfl rfl rfl ((Program.get?_setImage _ _ _ _).trans (if_pos rfl))
        (.root config unit merged) fun u hu =>
          (Program.get?_setImage _ _ _ _).trans (if_neg (Ne.symm hu))
  | finish unit =>
    show w.Changes _ (exec (perform (.finish unit)) w).2
    cases session : w.sessions.get? unit with
    | none =>
      rw [exec_finish_of_missing session]
      exact .refused rfl
    | some s =>
      rcases exec_finish_cases session (h.loaded session) with
        ⟨error, b, events, failed, runs, allowed⟩ |
        ⟨b, registry, done, runs, closed, rfl, unpublished⟩
      · rw [failed]
        exact .worked session runs allowed rfl rfl (.inl rfl)
      · rw [done]
        refine .worked session runs ?_ rfl rfl (.inr ⟨rfl, closed, unpublished, rfl⟩)
        simp [Command.Allows, Event.isOwn, Event.isDeclaration]
  | define | grant | withhold | importRoutines | setHooks | run => exact works _ rfl

/-! ## What a command does to one session -/

theorem get?_sessions_insert (sessions : Table String Session) (unit : String) (s : Session)
    (other : String) :
    (sessions.insert unit s).get? other =
      if unit = other then some s else sessions.get? other := by
  rw [Table.get?_insert]
  simp

/-- A unit with a session is loaded, so no command opens it again. -/
theorem Coherent.ne_of_fresh (h : w.Coherent) {unit other : String} {s : Session}
    (session : w.sessions.get? unit = some s) (fresh : w.program.contains other = false) :
    unit ≠ other := by
  rintro rfl
  obtain ⟨-, image, held, -⟩ := h.session session
  have missing := (Table.get?_eq_none_iff w.program.units unit).2 fresh
  cases held.symm.trans missing

/-- What a session leaves in the program is the image of its unit. -/
theorem Coherent.shown_after (h : w.Coherent) {unit : String} {s : Session} {image : Image}
    (session : w.sessions.get? unit = some s) (held : w.program.units.get? unit = some image)
    {b : Bench} {events : List Event} (runs : (w.bench s).Runs events b) :
    ∃ image', b.program.units.get? unit = some image' ∧
      Trace ⟨s, image⟩ events ⟨b.session, image'⟩ := by
  obtain ⟨rfl, -⟩ := h.session session
  have unit_eq := runs.unit_eq
  obtain ⟨w₁, ⟨s', image'⟩, shows₁, ⟨rfl, held'⟩, trace, -⟩ := runs
  have shows' : (w.bench s).Shows ⟨s, image⟩ := ⟨rfl, held⟩
  obtain rfl := shows'.unique shows₁
  rw [unit_eq] at held'
  exact ⟨image', held', trace⟩

/-- **One session.**  Whatever a command does, what it does to a session is a trace of events that
it allows, and no event at all if it is a command for another unit. -/
theorem Coherent.session_after (h : w.Coherent) {unit : String} {s : Session} {image : Image}
    (session : w.sessions.get? unit = some s) (held : w.program.units.get? unit = some image)
    (command : Command) :
    ∃ s' image' events, (w.after command).sessions.get? unit = some s' ∧
      (w.after command).program.units.get? unit = some image' ∧
      Trace ⟨s, image⟩ events ⟨s', image'⟩ ∧ (∀ event ∈ events, command.Allows event) ∧
      (command.unit ≠ unit → events = []) := by
  have still : (w.after command).sessions.get? unit = some s →
      (w.after command).program.units.get? unit = some image →
      ∃ s' image' events, (w.after command).sessions.get? unit = some s' ∧
        (w.after command).program.units.get? unit = some image' ∧
        Trace ⟨s, image⟩ events ⟨s', image'⟩ ∧ (∀ event ∈ events, command.Allows event) ∧
        (command.unit ≠ unit → events = []) :=
    fun session' held' => ⟨s, image, [], session', held', .nil _, by simp, fun _ => rfl⟩
  rcases h.changes command with same | ⟨fresh, sessions, -, elsewhere⟩ |
    ⟨fresh, sessions, -, -, -, -, elsewhere⟩ |
    @⟨s₁, b, events, working, runs, allowed, sessions, program, -⟩
  · rw [same] at still ⊢
    exact still session held
  · have other := h.ne_of_fresh session fresh
    exact still (by rw [sessions, session]) (by rw [elsewhere unit other, held])
  · have other := h.ne_of_fresh session fresh
    refine still ?_ (by rw [elsewhere unit other, held])
    rw [sessions, get?_sessions_insert, if_neg (Ne.symm other), session]
  · by_cases same : command.unit = unit
    · rw [same] at working sessions
      cases working.symm.trans session
      obtain ⟨image', held', trace⟩ := h.shown_after session held runs
      refine ⟨_, image', _, ?_, by rw [program, held'], trace, allowed,
        fun other => absurd same other⟩
      rw [sessions, get?_sessions_insert, if_pos rfl]
    · refine still ?_ ?_
      · rw [sessions, get?_sessions_insert, if_neg same, session]
      · obtain ⟨named, -⟩ := h.session working
        obtain ⟨-, -, -, -, -, elsewhere⟩ := runs
        have other : unit ≠ (w.bench s₁).unit := by
          rw [bench, Bench.unit, named]
          exact Ne.symm same
        rw [program, elsewhere unit other]
        exact held

/-- A command leaves the images of other units alone. -/
theorem Coherent.elsewhere_after (h : w.Coherent) {command : Command} {unit : String}
    (other : unit ≠ command.unit) :
    (w.after command).program.units.get? unit = w.program.units.get? unit := by
  rcases h.changes command with same | ⟨-, -, -, elsewhere⟩ | ⟨-, -, -, -, -, -, elsewhere⟩ |
    ⟨working, ⟨-, -, -, -, -, elsewhere⟩, -, -, program, -⟩
  · rw [same]
  · exact elsewhere unit other
  · exact elsewhere unit other
  · obtain ⟨named, -⟩ := h.session working
    rw [program, elsewhere unit (by rwa [bench, Bench.unit, named])]
    rfl

/-- A command leaves other sessions alone. -/
theorem Coherent.sessions_elsewhere_after (h : w.Coherent) {command : Command} {unit : String}
    (other : unit ≠ command.unit) :
    (w.after command).sessions.get? unit = w.sessions.get? unit := by
  rcases h.changes command with same | ⟨-, sessions, -, -⟩ | ⟨-, sessions, -, -, -, -, -⟩ |
    ⟨-, -, -, sessions, -, -⟩
  · rw [same]
  · rw [sessions]
  · rw [sessions, get?_sessions_insert, if_neg (Ne.symm other)]
  · rw [sessions, get?_sessions_insert, if_neg (Ne.symm other)]

/-- A unit that was opened stays in the program. -/
theorem Coherent.contains_after (h : w.Coherent) (command : Command) {unit : String}
    (loaded : w.program.contains unit = true) :
    (w.after command).program.contains unit = true := by
  by_cases other : unit ≠ command.unit
  · obtain ⟨image, held⟩ := Table.contains_iff_exists_get?.1 loaded
    exact Table.contains_iff_exists_get?.2 ⟨image, (h.elsewhere_after other).trans held⟩
  · obtain rfl := not_not.1 other
    rcases h.changes command with same | ⟨fresh, -, -, -⟩ | ⟨fresh, -, -, -, -, -, -⟩ |
      @⟨s, b, events, working, runs, -, -, program, -⟩
    · rwa [same]
    · exact absurd (fresh.symm.trans loaded) Bool.false_ne_true
    · exact absurd (fresh.symm.trans loaded) Bool.false_ne_true
    · obtain ⟨named, -⟩ := h.session working
      obtain ⟨image, held⟩ := runs.loaded
      rw [runs.unit_eq, bench, Bench.unit, named] at held
      rw [program]
      exact Table.contains_iff_exists_get?.2 ⟨image, held⟩

/-- A session that is new after a command has just been opened. -/
theorem Coherent.opened_of_new (h : w.Coherent) {command : Command} {unit : String} {s : Session}
    (session : (w.after command).sessions.get? unit = some s) (new : w.sessions.get? unit = none) :
    s.draft.unit = unit ∧ ∃ image, (w.after command).program.units.get? unit = some image ∧
      Writing.Attained ⟨s, image⟩ := by
  rcases h.changes command with same | ⟨-, sessions, -, -⟩ |
    ⟨-, sessions, -, named, held, attained, -⟩ | ⟨working, -, -, sessions, -, -⟩
  · rw [same, new] at session
    cases session
  · rw [sessions, new] at session
    cases session
  · rw [sessions, get?_sessions_insert] at session
    split at session
    · next same =>
      cases session
      rw [same] at held named
      exact ⟨named, _, held, attained⟩
    · rw [new] at session
      cases session
  · rw [sessions, get?_sessions_insert] at session
    split at session
    · next same =>
      rw [same, new] at working
      cases working
    · rw [new] at session
      cases session

/-- **Published registries stay, and a new one is what a session has just closed with.** -/
theorem Coherent.published_after (h : w.Coherent) {command : Command} {unit : String}
    {registry : Registry} (published : (w.after command).store.get? unit = some registry) :
    w.store.get? unit = some registry ∨
      ∃ s image, (w.after command).sessions.get? unit = some s ∧
        (w.after command).program.units.get? unit = some image ∧
        s.draft.toRegistry = registry ∧ Writing.Complete ⟨s, image⟩ := by
  rcases h.changes command with same | ⟨-, -, store, -⟩ | ⟨-, -, store, -, -, -, -⟩ |
    @⟨s, b, events, working, runs, -, sessions, program, store | ⟨rfl, -, -, store⟩⟩
  -- Only the last case, a session that is finished, writes the store.
  · rw [same] at published
    exact .inl published
  · rw [store] at published
    exact .inl published
  · rw [store] at published
    exact .inl published
  · rw [store] at published
    exact .inl published
  · rw [store, Store.get?, Table.get?_insert] at published
    have unit_eq := runs.unit_eq
    obtain ⟨named, image, held, -⟩ := h.session working
    obtain ⟨image', held', trace⟩ := h.shown_after working held runs
    split at published
    · next same =>
      cases published
      have same : command.unit = unit := by
        rw [← named, ← eq_of_beq same]
        exact unit_eq.symm
      refine .inr ⟨_, image', ?_, ?_, rfl, trace.complete_of_closing⟩
      · rw [sessions, get?_sessions_insert, if_pos same]
      · rw [program, ← same]
        exact held'
    · exact .inl published

/-- What holds of all sessions together holds after any command. -/
theorem Coherent.after (h : w.Coherent) (command : Command) : (w.after command).Coherent where
  session := by
    intro unit s session
    cases before : w.sessions.get? unit with
    | none => exact h.opened_of_new session before
    | some s₀ =>
      -- The session is the old one after a trace, and not one that was opened in its place.
      obtain ⟨named, image, held, attained⟩ := h.session before
      obtain ⟨s', image', events, session', held', trace, allowed, -⟩ :=
        h.session_after before held command
      cases session.symm.trans session'
      exact ⟨trace.unit_eq.trans named, image', held',
        attained.trace (fun event member => (allowed event member).1) trace⟩
  published := by
    intro unit registry published
    rcases h.published_after published with before | now
    · -- A closed draft is not written again, so the registry is still what the session holds.
      obtain ⟨s, session, closed, rfl⟩ := h.published before
      obtain ⟨-, image, held, -⟩ := h.session session
      obtain ⟨s', image', events, session', held', trace, -, -⟩ :=
        h.session_after session held command
      have draft : s'.draft = s.draft := trace.draft_eq_of_closed closed
      exact ⟨s', session', by rw [draft, closed], by rw [draft]⟩
    · obtain ⟨s, image, session, -, registered, complete⟩ := now
      exact ⟨s, session, complete.draft, registered⟩
  completed := by
    intro unit registry s image published session held
    rcases h.published_after published with before | now
    · obtain ⟨s₀, session₀, -, -⟩ := h.published before
      obtain ⟨-, image₀, held₀, -⟩ := h.session session₀
      obtain ⟨s', image', events, session', held', trace, -, -⟩ :=
        h.session_after session₀ held₀ command
      cases session.symm.trans session'
      cases held.symm.trans held'
      exact trace.stays_complete (h.completed before session₀ held₀)
    · obtain ⟨s', image', session', held', -, complete⟩ := now
      cases session.symm.trans session'
      cases held.symm.trans held'
      exact complete

/-- **Every workspace that commands lead to is coherent.** -/
theorem Reachable.coherent {w : Workspace} (h : w.Reachable) : w.Coherent := by
  induction h with
  | empty =>
    exact ⟨fun session => (nomatch session), fun published => (nomatch published),
      fun published => (nomatch published)⟩
  | after command _ ih => exact ih.after command

/-- Finishing closes the session, and then completes its image, as far as it gets. -/
theorem Coherent.finish_runs (h : w.Coherent) {unit : String} {s : Session}
    (session : w.sessions.get? unit = some s) :
    ∃ b events, (w.bench s).Runs events b ∧
      (events = [] ∨ events = [.close] ∨ events = [.close, .complete]) ∧
      (w.after (.finish unit)).sessions = w.sessions.insert unit b.session ∧
      (w.after (.finish unit)).program = b.program := by
  show ∃ b events, (w.bench s).Runs events b ∧ _ ∧
    (exec (perform (.finish unit)) w).2.sessions = w.sessions.insert unit b.session ∧
    (exec (perform (.finish unit)) w).2.program = b.program
  have loaded := h.loaded session
  rw [exec_perform_finish session]
  rcases Session.close_runs loaded with
    ⟨error, failed, -⟩ | ⟨image, b, -, -, failed, runs⟩ | ⟨registry, b, done, runs, -, -⟩
  · rw [failed]
    exact ⟨_, [], .refl loaded, .inl rfl, rfl, rfl⟩
  · rw [failed]
    exact ⟨b, _, runs, .inr (.inl rfl), rfl, rfl⟩
  · rw [done]
    refine ⟨b, _, runs, .inr (.inr rfl), ?_⟩
    dsimp only
    rw [exec_publish]
    split <;> exact ⟨rfl, rfl⟩

/-- What is published stays. -/
theorem Coherent.store_after (h : w.Coherent) {command : Command} {unit : String}
    {registry : Registry} (published : w.store.get? unit = some registry) :
    (w.after command).store.get? unit = some registry := by
  rcases h.changes command with same | ⟨-, -, store, -⟩ | ⟨-, -, store, -, -, -, -⟩ |
    ⟨-, -, -, -, -, store | ⟨-, -, unpublished, store⟩⟩
  · rw [same, published]
  · rw [store, published]
  · rw [store, published]
  · rw [store, published]
  · rw [store, Store.get?, Table.get?_insert, if_neg]
    · exact published
    · intro same
      rw [eq_of_beq same, published] at unpublished
      cases unpublished

/-- What an open session closes with is published, for its unit has not been published before. -/
theorem Coherent.exec_finish_of_close (h : w.Coherent) {unit : String} {s : Session} {b : Bench}
    {registry : Registry} (session : w.sessions.get? unit = some s)
    (writable : s.draft.closed = false) (named : registry.unit = unit)
    (closed : exec Session.close (w.bench s) = (.ok registry, b)) :
    exec (perform (.finish unit)) w =
      (.ok (.published registry), (w.withBench unit b).publishing registry) := by
  have fresh : (w.withBench unit b).toSite.store.published.contains registry.unit = false := by
    rw [named, ← Table.get?_eq_none_iff]
    cases published : w.store.get? unit with
    | none => exact published
    | some _ =>
      obtain ⟨s', session', isClosed, -⟩ := h.published published
      cases session.symm.trans session'
      cases isClosed.symm.trans writable
  rw [exec_perform_finish session, closed]
  dsimp only
  rw [exec_publish, fresh]
  rfl

/-- A command that declares nothing leaves the routines in an image as they are. -/
theorem Coherent.routines_after (h : w.Coherent) {unit : String} {s : Session} {image : Image}
    (session : w.sessions.get? unit = some s) (held : w.program.units.get? unit = some image)
    {command : Command} (silent : command.unit = unit → command.isDeclaration = false) :
    ∃ s' image', (w.after command).sessions.get? unit = some s' ∧
      (w.after command).program.units.get? unit = some image' ∧
      image'.routines = image.routines := by
  obtain ⟨s', image', events, session', held', trace, allowed, other⟩ :=
    h.session_after session held command
  refine ⟨s', image', session', held', ?_⟩
  by_cases same : command.unit = unit
  · refine trace.routines_eq fun event member => ⟨(allowed event member).1, ?_⟩
    rw [Bool.eq_false_iff]
    intro declares
    exact Bool.eq_false_iff.1 (silent same) ((allowed event member).2 declares)
  · obtain rfl := other same
    cases trace
    rfl

/-! ## Commands one after the other -/

/-- The workspace after commands, failing ones included. -/
def afterAll (w : Workspace) (commands : List Command) : Workspace := commands.foldl after w

@[simp] theorem afterAll_nil (w : Workspace) : w.afterAll [] = w := rfl

@[simp] theorem afterAll_cons (w : Workspace) (command : Command) (commands : List Command) :
    w.afterAll (command :: commands) = (w.after command).afterAll commands := rfl

theorem afterAll_append (w : Workspace) (commands commands' : List Command) :
    w.afterAll (commands ++ commands') = (w.afterAll commands).afterAll commands' :=
  List.foldl_append

/-- The outcomes of commands, one after the other. -/
def outcomes : Workspace → List Command → List (Except Error Reply)
  | _, [] => []
  | w, command :: commands => w.outcome command :: outcomes (w.after command) commands

theorem outcomes_append (w : Workspace) (commands commands' : List Command) :
    w.outcomes (commands ++ commands') =
      w.outcomes commands ++ (w.afterAll commands).outcomes commands' := by
  induction commands generalizing w with
  | nil => rfl
  | cons command commands ih => exact congrArg _ (ih (w.after command))

theorem Reachable.afterAll (h : w.Reachable) (commands : List Command) :
    (w.afterAll commands).Reachable := by
  induction commands generalizing w with
  | nil => exact h
  | cons command commands ih => exact ih (.after command h)

theorem Coherent.afterAll (h : w.Coherent) (commands : List Command) :
    (w.afterAll commands).Coherent := by
  induction commands generalizing w with
  | nil => exact h
  | cons command commands ih => exact ih (h.after command)

theorem Coherent.store_afterAll (h : w.Coherent) {unit : String} {registry : Registry}
    (published : w.store.get? unit = some registry) (commands : List Command) :
    (w.afterAll commands).store.get? unit = some registry := by
  induction commands generalizing w with
  | nil => exact published
  | cons command commands ih => exact ih (h.after command) (h.store_after published)

theorem Coherent.elsewhere_afterAll (h : w.Coherent) {commands : List Command} {unit : String}
    (other : ∀ command ∈ commands, unit ≠ command.unit) :
    (w.afterAll commands).program.units.get? unit = w.program.units.get? unit := by
  induction commands generalizing w with
  | nil => rfl
  | cons command commands ih =>
    exact (ih (h.after command) fun c member => other c (List.mem_cons_of_mem command member)).trans
      (h.elsewhere_after (other command List.mem_cons_self))

theorem Coherent.contains_afterAll (h : w.Coherent) (commands : List Command) {unit : String}
    (loaded : w.program.contains unit = true) :
    (w.afterAll commands).program.contains unit = true := by
  induction commands generalizing w with
  | nil => exact loaded
  | cons command commands ih => exact ih (h.after command) (h.contains_after command loaded)

theorem Coherent.routines_afterAll (h : w.Coherent) {unit : String} {s : Session} {image : Image}
    (session : w.sessions.get? unit = some s) (held : w.program.units.get? unit = some image)
    {commands : List Command}
    (silent : ∀ command ∈ commands, command.unit = unit → command.isDeclaration = false) :
    ∃ image', (w.afterAll commands).program.units.get? unit = some image' ∧
      image'.routines = image.routines := by
  induction commands generalizing w s image with
  | nil => exact ⟨image, held, rfl⟩
  | cons command commands ih =>
    obtain ⟨s', image₁, session', held', same⟩ :=
      h.routines_after session held (silent command List.mem_cons_self)
    obtain ⟨image', held'', same'⟩ := ih (h.after command) session' held'
      fun c member => silent c (List.mem_cons_of_mem command member)
    exact ⟨image', held'', same'.trans same⟩

end Workspace

end Heredity
