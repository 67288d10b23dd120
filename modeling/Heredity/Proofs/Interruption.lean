import Heredity.Proofs.Stopping

/-!
# Commands that fail

No command undoes what it did before it failed.  This file says what that is: nothing at all, or
what the same command does when it is stopped at the point of the failure.

* `Site.RefusesOpening` — why a unit is not even loaded.
* `Workspace.Leaves` — when a command fails, and what it leaves behind.
* `Workspace.Spares` — what a failure leaves alone.
* `Reachable.leaves_of_error` — every failing command but that of finishing leaves exactly what
  `Leaves` says, and it touches neither the store nor another unit.

**Three commands are made of several writes.**  A declaration has one for each arity, an import one
for each key, and opening an extension executes the statements of hooks.  Every other command writes
once, after all of its checks.  So each clause of `Leaves` either has the whole workspace as it was,
or names the first part that is refused together with the outcome of the parts before it.
-/

namespace Heredity

open Step (exec)

/-- Writing the value that is stored changes nothing. -/
theorem Table.insert_eq_self {κ α : Type} [BEq κ] [PartialEquivBEq κ] {t : Table κ α} {k : κ}
    {a : α} (stored : t.get? k = some a) : t.insert k a = t := by
  obtain ⟨k', member, agrees⟩ := get?_eq_some_iff.1 stored
  refine ext ?_
  rw [insert_of_contains (contains_iff_exists_get?.2 ⟨a, stored⟩)]
  refine (List.map_congr_left fun e isEntry => ?_).trans (List.map_id _)
  split
  · next agrees' =>
    -- The entry at the key is the one that is read there.
    by_contra other
    refine distinct_of_mem t isEntry member (fun same => other ?_)
      (BEq.trans agrees' (BEq.symm agrees))
    rw [same]
    rfl
  · rfl

/-- A session that has changed nothing leaves the workspace as it was. -/
theorem Workspace.withBench_bench {w : Workspace} {unit : String} {s : Session}
    (session : w.sessions.get? unit = some s) : w.withBench unit (w.bench s) = w := by
  show { w with sessions := w.sessions.insert unit s } = w
  rw [Table.insert_eq_self session]

/-! ## Commands -/

/-- The statement that a command executes, and whether it does so as a hook. -/
def Command.statement? : Command → Option (Statement × Bool)
  | .define _ declaration => some (.define declaration, false)
  | .grant _ key => some (.grant key, false)
  | .withhold _ key => some (.withhold key, false)
  | .run _ statement spliced => some (statement, spliced)
  | _ => none

/-- Opening a unit is refused before it is loaded. -/
inductive Site.RefusesOpening (site : Site) (error : Error) : Command → Prop where
  /-- The fields of the root are not well-formed. -/
  | fields {config : Config} {unit : String} {fields : Value}
      (refused : (mergeFields ∅ fields).mapError Error.fault = .error error) :
      RefusesOpening site error (.openRoot config unit fields)
  /-- The root was loaded before. -/
  | root {config : Config} {unit : String} {fields : Value} {merged : Table Value Value}
      (merges : mergeFields ∅ fields = .ok merged) (loaded : site.program.contains unit = true)
      (isError : error = .alreadyLoaded unit) :
      RefusesOpening site error (.openRoot config unit fields)
  /-- The base is not published. -/
  | unpublished {config : Config} {unit base : String} {fields : Value}
      (unpublished : site.store.get? base = none)
      (isError : error = .unresolvedBase unit (.text base)) :
      RefusesOpening site error (.openExtension config unit base fields)
  /-- The base cannot be extended with these fields. -/
  | unresolved {config : Config} {unit base : String} {fields : Value} {registry : Registry}
      (published : site.store.get? base = some registry)
      (refused : resolve registry fields unit config = .error error) :
      RefusesOpening site error (.openExtension config unit base fields)
  /-- The extension was loaded before. -/
  | extension {config : Config} {unit base : String} {fields : Value} {registry : Registry}
      {resolution : Resolution} (published : site.store.get? base = some registry)
      (resolved : resolve registry fields unit config = .ok resolution)
      (loaded : site.program.contains unit = true) (isError : error = .alreadyLoaded unit) :
      RefusesOpening site error (.openExtension config unit base fields)

namespace Site

variable {site site' : Site} {error : Error} {config : Config} {unit base : String} {fields : Value}

/-- Why a root is not loaded. -/
theorem refusesOpening_root_iff :
    site.RefusesOpening error (.openRoot config unit fields) ↔
      (mergeFields ∅ fields).mapError Error.fault = .error error ∨
        ∃ merged, mergeFields ∅ fields = .ok merged ∧ site.program.contains unit = true ∧
          error = .alreadyLoaded unit := by
  constructor
  · intro refuses
    cases refuses with
    | fields refused => exact .inl refused
    | root merges loaded isError => exact .inr ⟨_, merges, loaded, isError⟩
  · rintro (refused | ⟨merged, merges, loaded, isError⟩)
    · exact .fields refused
    · exact .root merges loaded isError

/-- Why an extension is not loaded. -/
theorem refusesOpening_extension_iff :
    site.RefusesOpening error (.openExtension config unit base fields) ↔
      (site.store.get? base = none ∧ error = .unresolvedBase unit (.text base)) ∨
        ∃ registry, site.store.get? base = some registry ∧
          (resolve registry fields unit config = .error error ∨
            ∃ resolution, resolve registry fields unit config = .ok resolution ∧
              site.program.contains unit = true ∧ error = .alreadyLoaded unit) := by
  constructor
  · intro refuses
    cases refuses with
    | unpublished unpublished isError => exact .inl ⟨unpublished, isError⟩
    | unresolved published refused => exact .inr ⟨_, published, .inl refused⟩
    | extension published resolved loaded isError =>
      exact .inr ⟨_, published, .inr ⟨_, resolved, loaded, isError⟩⟩
  · rintro (⟨unpublished, isError⟩ |
      ⟨registry, published, refused | ⟨resolution, resolved, loaded, isError⟩⟩)
    · exact .unpublished unpublished isError
    · exact .unresolved published refused
    · exact .extension published resolved loaded isError

/-- **Opening a root fails** if it is refused. -/
theorem exec_openRoot_eq_error_iff :
    exec (openRoot config unit fields) site = (.error error, site') ↔
      site' = site ∧ site.RefusesOpening error (.openRoot config unit fields) := by
  rw [exec_openRoot, refusesOpening_root_iff]
  cases merging : mergeFields ∅ fields with
  | error fault => simp [Except.mapError, @eq_comm _ site', and_comm]
  | ok merged =>
    cases loaded : site.program.contains unit with
    | true => simp [Except.mapError, @eq_comm _ site', @eq_comm _ error, and_comm]
    | false => simp [Except.mapError]

/-- **Opening an extension fails** if it is refused, or as putting in place what is inherited
does. -/
theorem exec_openExtension_eq_error_iff :
    exec (openExtension config unit base fields) site = (.error error, site') ↔
      (site' = site ∧ site.RefusesOpening error (.openExtension config unit base fields)) ∨
        ∃ registry resolution b, site.store.get? base = some registry ∧
          resolve registry fields unit config = .ok resolution ∧
          site.program.contains unit = false ∧
          exec (Session.materialize site.store resolution.emissions)
            (site.openingBench config resolution.draft) = (.error error, b) ∧
          site' = { site with program := b.program, warnings := b.warnings } := by
  rw [exec_openExtension, refusesOpening_extension_iff]
  cases published : site.store.get? base with
  | none => simp [@eq_comm _ site', @eq_comm _ error, and_comm]
  | some registry =>
    dsimp only
    cases resolved : resolve registry fields unit config with
    | error error' => simp [resolved, @eq_comm _ site', and_comm]
    | ok resolution =>
      dsimp only
      rw [(draft_of_resolve resolved).1]
      cases loaded : site.program.contains unit with
      | true => simp [resolved, @eq_comm _ site', @eq_comm _ error, and_comm]
      | false =>
        cases put : exec (Session.materialize site.store resolution.emissions)
          (site.openingBench config resolution.draft) with
        | mk result b =>
          cases result with
          | ok => simp [resolved, put, Except.map]
          | error => simp [resolved, put, Except.map, @eq_comm _ site', and_comm]

end Site

namespace Workspace

/-- **When a command fails that does not finish a session, and what it leaves behind.** -/
inductive Leaves (w : Workspace) (error : Error) : Command → Workspace → Prop where
  /-- There is no session that could execute it. -/
  | absent {command : Command} (isWork : (command.work? w.store).isSome)
      (absent : w.sessions.get? command.unit = none) (isError : error = .fault .missingKey) :
      Leaves w error command w
  /-- A statement is refused, which changes nothing. -/
  | refused {command : Command} {statement : Statement} {spliced : Bool} {s : Session}
      (isStatement : command.statement? = some (statement, spliced))
      (session : w.sessions.get? command.unit = some s)
      (refuses : Session.Refuses w.store (w.bench s) error statement) : Leaves w error command w
  /-- A declaration is stopped at a variant, and leaves what those before it leave. -/
  | declared {command : Command} {declaration : Declaration} {spliced : Bool} {s : Session}
      {b : Bench} (isStatement : command.statement? = some (.define declaration, spliced))
      (session : w.sessions.get? command.unit = some s)
      (stops : Session.Stops w.store declaration spliced (w.bench s) error b) :
      Leaves w error command (w.withBench command.unit b)
  /-- An import is refused, which changes nothing. -/
  | unimported {unit : String} {source : Value} {keys : Option (List Key)} {s : Session}
      (session : w.sessions.get? unit = some s)
      (refuses : Session.RefusesImport w.store source keys (w.bench s) error) :
      Leaves w error (.importRoutines unit source keys) w
  /-- An import is stopped at the first key that the source does not pass on, and leaves those
  before it. -/
  | imported {unit source : String} {keys : List Key} {s : Session} {registry : Registry}
      {b : Bench} (session : w.sessions.get? unit = some s)
      (published : w.store.get? source = some registry)
      (stops : Session.StopsImporting registry keys (w.bench s) error b) :
      Leaves w error (.importRoutines unit (.text source) (some keys)) (w.withBench unit b)
  /-- The draft is closed whose hooks are set, which changes nothing. -/
  | unhooked {unit : String} {pre post : Option Hook} {s : Session}
      (session : w.sessions.get? unit = some s)
      (refused : s.draft.setHooks pre post = .error error) :
      Leaves w error (.setHooks unit pre post) w
  /-- Opening a unit is refused, which changes nothing. -/
  | unopened {command : Command} (refuses : w.toSite.RefusesOpening error command) :
      Leaves w error command w
  /-- A hook of the base fails; what it executed before stays in the image of the new unit, which
  has no session. -/
  | opened {config : Config} {unit base : String} {fields : Value} {registry : Registry}
      {resolution : Resolution} {b : Bench} (published : w.store.get? base = some registry)
      (resolved : resolve registry fields unit config = .ok resolution)
      (fresh : w.program.contains unit = false)
      (stops : Session.StopsOpening w.store resolution.emissions
        (w.toSite.openingBench config resolution.draft) error b) :
      Leaves w error (.openExtension config unit base fields)
        { w with program := b.program, warnings := b.warnings }

variable {w w' : Workspace} {error : Error}

/-- A command on a session fails without one, or as its session fails. -/
theorem exec_perform_eq_error_iff {command : Command} {m : Step Bench Reply}
    (isWork : command.work? w.store = some m) :
    exec (perform command) w = (.error error, w') ↔
      (w.sessions.get? command.unit = none ∧ error = .fault .missingKey ∧ w' = w) ∨
        ∃ s b, w.sessions.get? command.unit = some s ∧ exec m (w.bench s) = (.error error, b) ∧
          w' = w.withBench command.unit b := by
  rw [exec_perform_of_work isWork]
  cases session : w.sessions.get? command.unit with
  | none => simp [eq_comm]
  | some s =>
    dsimp only
    constructor
    · intro failed
      obtain ⟨isError, rfl⟩ := Prod.mk.inj failed
      exact .inr ⟨s, _, rfl, Prod.ext isError rfl, rfl⟩
    · rintro (⟨absent, -⟩ | ⟨s', b, same, failed, rfl⟩)
      · cases absent
      · cases same
        rw [failed]

/-- What executes a statement fails where the statement halts. -/
theorem exec_work_eq_error_iff {store : Store} {command : Command} {m : Step Bench Reply}
    (isWork : command.work? store = some m) {statement : Statement} {spliced : Bool}
    (isStatement : command.statement? = some (statement, spliced)) {b b' : Bench}
    (loaded : b.Loaded) :
    exec m b = (.error error, b') ↔ Session.Halts store spliced statement b error b' := by
  cases command with
  | openRoot | openExtension | finish => cases isWork
  | importRoutines | setHooks => cases isStatement
  | define unit declaration =>
    cases isWork
    cases isStatement
    exact Step.exec_bind_pure_eq_error_iff.trans (Session.halts_define_iff loaded).symm
  | grant unit key =>
    cases isWork
    cases isStatement
    rw [← Session.exec_run_eq_error_iff loaded]
    exact Step.exec_bind_pure_eq_error_iff
  | withhold unit key =>
    cases isWork
    cases isStatement
    rw [← Session.exec_run_eq_error_iff loaded]
    exact Step.exec_bind_pure_eq_error_iff
  | run unit statement spliced =>
    cases isWork
    cases isStatement
    exact Step.exec_bind_pure_eq_error_iff.trans (Session.exec_run_eq_error_iff loaded)

/-- A statement that halts leaves the workspace as it was, or is a declaration that is stopped. -/
theorem Leaves.of_halts {command : Command} {statement : Statement} {spliced : Bool} {s : Session}
    {b : Bench} (isStatement : command.statement? = some (statement, spliced))
    (session : w.sessions.get? command.unit = some s)
    (halts : Session.Halts w.store spliced statement (w.bench s) error b) :
    w.Leaves error command (w.withBench command.unit b) := by
  rcases halts with ⟨rfl, refuses⟩ | ⟨declaration, rfl, stops⟩
  · rw [withBench_bench session]
    exact .refused isStatement session refuses
  · exact .declared isStatement session stops

/-- **A command on a session fails** exactly as `Leaves` says. -/
theorem Coherent.leaves_iff_of_work (h : w.Coherent) {command : Command} {m : Step Bench Reply}
    (isWork : command.work? w.store = some m) :
    w.Leaves error command w' ↔ exec (perform command) w = (.error error, w') := by
  rw [exec_perform_eq_error_iff isWork]
  constructor
  · intro leaves
    cases leaves with
    | absent _ absent isError => exact .inl ⟨absent, isError, rfl⟩
    | refused isStatement session refuses =>
      exact .inr ⟨_, _, session, (exec_work_eq_error_iff isWork isStatement (h.loaded session)).2
        (.inl ⟨rfl, refuses⟩), (withBench_bench session).symm⟩
    | declared isStatement session stops =>
      exact .inr ⟨_, _, session, (exec_work_eq_error_iff isWork isStatement (h.loaded session)).2
        (.inr ⟨_, rfl, stops⟩), rfl⟩
    | unimported session refuses =>
      cases isWork
      exact .inr ⟨_, _, session, Step.exec_bind_pure_eq_error_iff.2
        (Session.exec_importRoutines_eq_error_iff.2 (.inl ⟨rfl, refuses⟩)),
        (withBench_bench session).symm⟩
    | imported session published stops =>
      cases isWork
      exact .inr ⟨_, _, session, Step.exec_bind_pure_eq_error_iff.2
        (Session.exec_importRoutines_eq_error_iff.2 (.inr ⟨_, _, _, rfl, rfl, published, stops⟩)),
        rfl⟩
    | unhooked session refused =>
      cases isWork
      exact .inr ⟨_, _, session, Step.exec_bind_pure_eq_error_iff.2
        (Session.exec_updateDraft_eq_error_iff.2 ⟨rfl, refused⟩), (withBench_bench session).symm⟩
    | unopened refuses => cases refuses <;> cases isWork
    | opened => cases isWork
  · rintro (⟨absent, rfl, rfl⟩ | ⟨s, b, session, failed, rfl⟩)
    · exact .absent (by rw [isWork]; rfl) absent rfl
    · have loaded := h.loaded session
      cases command with
      | openRoot | openExtension | finish => cases isWork
      | define | grant | withhold | run =>
        exact .of_halts rfl session ((exec_work_eq_error_iff isWork rfl loaded).1 failed)
      | importRoutines unit source keys =>
        cases isWork
        rcases Session.exec_importRoutines_eq_error_iff.1
          (Step.exec_bind_pure_eq_error_iff.1 failed) with
          ⟨rfl, refuses⟩ | ⟨_, _, _, rfl, rfl, published, stops⟩
        · rw [withBench_bench session]
          exact .unimported session refuses
        · exact .imported session published stops
      | setHooks unit pre post =>
        cases isWork
        obtain ⟨rfl, refused⟩ := Session.exec_updateDraft_eq_error_iff.1
          (Step.exec_bind_pure_eq_error_iff.1 failed)
        rw [withBench_bench session]
        exact .unhooked session refused

/-- A unit fails to open as its site fails to open it. -/
theorem exec_opening_eq_error_iff {unit : String} {f : Step Site Session} :
    exec (opening unit f) w = (.error error, w') ↔
      ∃ site, exec f w.toSite = (.error error, site) ∧ w' = { w with toSite := site } := by
  rw [exec_opening]
  cases opened : exec f w.toSite with
  | mk result site =>
    cases result with
    | ok s => simp
    | error error' => simp [and_assoc, eq_comm]

/-- **A root fails to open** exactly as `Leaves` says. -/
theorem leaves_openRoot_iff {config : Config} {unit : String} {fields : Value} :
    w.Leaves error (.openRoot config unit fields) w' ↔
      exec (perform (.openRoot config unit fields)) w = (.error error, w') := by
  refine .trans ?_ exec_opening_eq_error_iff.symm
  constructor
  · intro leaves
    cases leaves with
    | absent isWork => cases isWork
    | refused isStatement => cases isStatement
    | declared isStatement => cases isStatement
    | unopened refuses =>
      exact ⟨w.toSite, Site.exec_openRoot_eq_error_iff.2 ⟨rfl, refuses⟩, rfl⟩
  · rintro ⟨site, failed, rfl⟩
    obtain ⟨rfl, refuses⟩ := Site.exec_openRoot_eq_error_iff.1 failed
    exact .unopened refuses

/-- **An extension fails to open** exactly as `Leaves` says. -/
theorem leaves_openExtension_iff {config : Config} {unit base : String} {fields : Value} :
    w.Leaves error (.openExtension config unit base fields) w' ↔
      exec (perform (.openExtension config unit base fields)) w = (.error error, w') := by
  refine .trans ?_ exec_opening_eq_error_iff.symm
  have stops : ∀ (resolution : Resolution) (b : Bench),
      exec (Session.materialize w.store resolution.emissions)
          (w.toSite.openingBench config resolution.draft) = (.error error, b) ↔
        Session.StopsOpening w.store resolution.emissions
          (w.toSite.openingBench config resolution.draft) error b := by
    intro resolution b
    have opening := w.toSite.openingBench_shows config resolution.draft
    exact Session.exec_materialize_eq_error_iff opening.loaded
  constructor
  · intro leaves
    cases leaves with
    | absent isWork => cases isWork
    | refused isStatement => cases isStatement
    | declared isStatement => cases isStatement
    | unopened refuses =>
      exact ⟨w.toSite, Site.exec_openExtension_eq_error_iff.2 (.inl ⟨rfl, refuses⟩), rfl⟩
    | opened published resolved fresh stopped =>
      exact ⟨_, Site.exec_openExtension_eq_error_iff.2
        (.inr ⟨_, _, _, published, resolved, fresh, (stops _ _).2 stopped, rfl⟩), rfl⟩
  · rintro ⟨site, failed, rfl⟩
    rcases Site.exec_openExtension_eq_error_iff.1 failed with
      ⟨rfl, refuses⟩ | ⟨_, _, _, published, resolved, fresh, put, rfl⟩
    · exact .unopened refuses
    · exact .opened published resolved fresh ((stops _ _).1 put)

/-- **A command fails** exactly as `Leaves` says, if it does not finish a session. -/
theorem Coherent.leaves_iff (h : w.Coherent) {command : Command}
    (unfinished : ∀ unit, command ≠ .finish unit) :
    w.Leaves error command w' ↔ exec (perform command) w = (.error error, w') := by
  cases isWork : command.work? w.store with
  | some m => exact h.leaves_iff_of_work isWork
  | none =>
    cases command with
    | openExtension => exact leaves_openExtension_iff
    | openRoot => exact leaves_openRoot_iff
    | finish unit => exact absurd rfl (unfinished unit)
    | define | grant | withhold | importRoutines | setHooks | run => cases isWork

/-- The store is the same, and so are the sessions and images of all other units. -/
structure Spares (w : Workspace) (unit : String) (w' : Workspace) : Prop where
  /-- The store is the same. -/
  store : w'.store = w.store
  /-- The sessions of other units are the same. -/
  sessions : ∀ other, other ≠ unit → w'.sessions.get? other = w.sessions.get? other
  /-- The images of other units are the same. -/
  images : ∀ other, other ≠ unit → w'.program.units.get? other = w.program.units.get? other

theorem Spares.refl (w : Workspace) (unit : String) : w.Spares unit w :=
  ⟨rfl, fun _ _ => rfl, fun _ _ => rfl⟩

/-- A session that works spares all other units. -/
theorem Coherent.spares_withBench (h : w.Coherent) {unit : String} {s : Session} {b : Bench}
    {events : List Event} (session : w.sessions.get? unit = some s)
    (runs : (w.bench s).Runs events b) : w.Spares unit (w.withBench unit b) := by
  obtain ⟨named, -⟩ := h.session session
  obtain ⟨-, -, -, -, -, elsewhere⟩ := runs
  refine ⟨rfl, fun other unequal => ?_, fun other unequal => elsewhere other ?_⟩
  · exact (get?_sessions_insert _ _ _ _).trans (if_neg (Ne.symm unequal))
  · rw [bench, Bench.unit, named]
    exact unequal

/-- A command on a session spares all other units. -/
theorem Coherent.spares_of_work (h : w.Coherent) {command : Command} {m : Step Bench Reply}
    (isWork : command.work? w.store = some m) : w.Spares command.unit (w.after command) := by
  show w.Spares _ (exec (perform command) w).2
  rw [exec_perform_of_work isWork]
  cases session : w.sessions.get? command.unit with
  | none => exact .refl w _
  | some s =>
    obtain ⟨events, runs, -⟩ := Command.work?_performs isWork _ (h.loaded session)
    exact h.spares_withBench session runs

/-- A command that fails spares all other units. -/
theorem Coherent.spares_of_leaves (h : w.Coherent) {command : Command}
    (leaves : w.Leaves error command w') (isAfter : w' = w.after command) :
    w.Spares command.unit w' := by
  cases leaves with
  | absent | refused | unimported | unhooked | unopened => exact .refl w _
  | declared isStatement =>
    rw [isAfter]
    cases command with
    | define | run => exact h.spares_of_work rfl
    | _ => cases isStatement
  | imported =>
    rw [isAfter]
    exact h.spares_of_work rfl
  | @opened config unit _ _ _ resolution _ _ resolved _ stops =>
    have opening := w.toSite.openingBench_shows config resolution.draft
    have alone := Site.alone_of_materialize
      ((Session.exec_materialize_eq_error_iff opening.loaded).2 stops)
    rw [(draft_of_resolve resolved).1] at alone
    exact ⟨rfl, fun _ _ => rfl, alone.elsewhere⟩

/-- **Commands that fail.**  In every workspace that commands lead to, let a command fail that does
not finish a session.  The store and all other units are as before, and what it leaves is exactly
what `Leaves` says.  It has changed nothing, or it was one of three kinds: a declaration, which has
treated the variants before the one that is refused; an import, which has imported the keys before
the first one that is unknown; or the opening of an extension, which has executed what stands before
the statement of a hook that has failed. -/
theorem Reachable.leaves_of_error (h : w.Reachable) {command : Command}
    (failed : w.outcome command = .error error) (unfinished : ∀ unit, command ≠ .finish unit) :
    w.Spares command.unit (w.after command) ∧
      ∀ w', w.Leaves error command w' ↔ w' = w.after command := by
  have leaves_iff : ∀ w', w.Leaves error command w' ↔ w' = w.after command := by
    intro w'
    rw [h.coherent.leaves_iff unfinished]
    constructor
    · intro outcome
      exact (congrArg Prod.snd outcome).symm
    · rintro rfl
      exact Prod.ext failed rfl
  exact ⟨h.coherent.spares_of_leaves ((leaves_iff _).2 rfl) rfl, leaves_iff⟩

/-- The commands by which a unit is published that has a routine of two parameters, and a hook with
a statement that fails in every extension; and by which another unit is opened that has a private
routine of two parameters. -/
def interruptedCommands : List Command :=
  [.openRoot {} "base" (.list []),
    .define "base" ⟨"f", [.binding "x", .binding "y"], .var "x", [], false, false⟩,
    .setHooks "base" (some [.grant (.ofCount "missing" 0)]) none,
    .finish "base",
    .openRoot {} "unit" (.list []),
    .define "unit" ⟨"f", [.binding "x", .binding "y"], .literal (.text "private"), [], true, false⟩]

/-- The workspace that they lead to. -/
def interruptedWorkspace : Workspace := afterAll ∅ interruptedCommands

/-- A public declaration of the routine with one and with two parameters. -/
def interruptedDeclaration : Command :=
  .define "unit" ⟨"f", [.binding "x", .optional (.binding "y") (.literal (.int 1))], .var "x", [],
    false, false⟩

/-- An import of a routine that is there and of one that is not. -/
def interruptedImport : Command :=
  .importRoutines "unit" (.text "base") (some [.ofCount "f" 2, .ofCount "missing" 0])

/-- The declaration of a private key spares all units but its own, and leaves what declaring the
routine with one parameter leaves. -/
theorem leaves_of_interruptedDeclaration :
    interruptedWorkspace.Reachable ∧
      interruptedWorkspace.outcome interruptedDeclaration =
        .error (.privateAlready "unit" (.ofCount "f" 2)) ∧
      (∀ unit, interruptedDeclaration ≠ .finish unit) ∧
      interruptedWorkspace.Spares "unit" (interruptedWorkspace.after interruptedDeclaration) ∧
      ∀ w', interruptedWorkspace.Leaves (.privateAlready "unit" (.ofCount "f" 2))
        interruptedDeclaration w' ↔ w' = interruptedWorkspace.after interruptedDeclaration := by
  have failed : interruptedWorkspace.outcome interruptedDeclaration =
      .error (.privateAlready "unit" (.ofCount "f" 2)) := by cbv
  have unfinished : ∀ unit, interruptedDeclaration ≠ .finish unit := by
    intro unit same
    cases same
  have reachable : interruptedWorkspace.Reachable := Reachable.empty.afterAll interruptedCommands
  obtain ⟨spares, leaves⟩ := Reachable.leaves_of_error reachable failed unfinished
  exact ⟨reachable, failed, unfinished, spares, leaves⟩

/-- **Failing commands can change something.**  A declaration that is refused for two parameters has
declared the routine with one, an import that is refused for the second key has imported the first,
and an extension whose hook fails stays loaded. -/
theorem failures_leave_traces :
    (interruptedWorkspace.outcome interruptedDeclaration =
        .error (.privateAlready "unit" (.ofCount "f" 2)) ∧
      interruptedWorkspace.program.call "unit" "f" [.int 1] =
        .error (.undefinedRoutine "unit" (.ofCount "f" 1)) ∧
      (interruptedWorkspace.after interruptedDeclaration).program.call "unit" "f" [.int 1] =
        .ok (.text "private")) ∧
    (interruptedWorkspace.outcome interruptedImport =
        .error (.unknownRoutine "base" (.ofCount "missing" 0)) ∧
      (interruptedWorkspace.sessions.get? "unit").map (fun s =>
        s.draft.imports.contains (.ofCount "f" 2)) = some false ∧
      ((interruptedWorkspace.after interruptedImport).sessions.get? "unit").map (fun s =>
        s.draft.imports.contains (.ofCount "f" 2)) = some true) ∧
    (interruptedWorkspace.outcome (.openExtension {} "child" "base" (.list [])) =
        .error (.unknownRoutine "child" (.ofCount "missing" 0)) ∧
      interruptedWorkspace.program.contains "child" = false ∧
      (interruptedWorkspace.after (.openExtension {} "child" "base" (.list []))).program.contains
        "child" = true) := by
  cbv

end Workspace

end Heredity
