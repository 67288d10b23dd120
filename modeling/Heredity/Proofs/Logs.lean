import Heredity.Proofs.Workspaces

/-!
# Logs of sessions

What a session has done cannot be read off it: a declaration that takes the place of another one
leaves no trace of it, and what a hook does is not answered to anyone.  A *log* is computed by
running the operations again, and this file says once what makes a log true, whatever it records.

* `Reading` — which logs stand for which events.
* `Step.Logs` — the events of a step are those that its log stands for; one rule for each way in
  which steps are put together.
* `Session.define_logs` — the log of a declaration is that of its variants.
* `Command.Keeps` — a log of commands, given by logs of what sessions work at.
* `Workspace.logAll` — the log of a unit over any commands.
* `Coherent.logs_afterAll` — what commands do to a session is what the log of its unit stands for.

**Failures are part of a log.**  What a step did before it failed is in its log, so the log of two
steps goes on after the first only if that succeeded.
-/

namespace Heredity

open Step (exec)

/-- A way of reading events: the logs that stand for a list of events. -/
structure Reading (γ : Type) where
  /-- The events are read as the log. -/
  reads : List Event → List γ → Prop
  /-- Without events there is nothing to be read. -/
  nil : reads [] []
  /-- Logs are put together like events. -/
  append : ∀ {events events' : List Event} {log log' : List γ}, reads events log →
    reads events' log' → reads (events ++ events') (log ++ log')

/-- What is read off every event for itself. -/
def Reading.ofEvent {γ : Type} (f : Event → Option γ) : Reading γ where
  reads events log := events.filterMap f = log
  nil := rfl
  append read read' := by rw [List.filterMap_append, read, read']

/-- **From one event to a trace.**  What holds of a unit and what has been read off its events, and
is kept by every event, holds after all of them. -/
theorem Trace.logged {γ : Type} {f : Event → Option γ} {I : List γ → Writing → Prop}
    {w w' : Writing} {events : List Event} (trace : Trace w events w')
    (step : ∀ {w event w' past}, event ∈ events → Moves w event w' → I past w →
      I (past ++ (f event).toList) w') (start : I [] w) : I (events.filterMap f) w' := by
  suffices later : ∀ past, I past w → I (past ++ events.filterMap f) w' from later [] start
  clear start
  induction trace with
  | nil =>
    intro past start
    rwa [List.filterMap_nil, List.append_nil]
  | @cons w w₁ w' event events first rest ih =>
    intro past start
    have later := ih (fun member => step (List.mem_cons_of_mem _ member)) _
      (step List.mem_cons_self first start)
    have split : (event :: events).filterMap f = (f event).toList ++ events.filterMap f := by
      rw [List.filterMap_cons]
      cases f event <;> rfl
    rw [split, ← List.append_assoc]
    exact later

/-! ## Logs of steps -/

namespace Step

variable {α β γ δ : Type}

/-- The log of treating the members of a list one after the other, up to the first failure. -/
def logEach (f : α → Step Bench β) (log : α → Bench → List γ) : List α → Bench → List γ
  | [], _ => []
  | x :: xs, b =>
    log x b ++
      match exec (f x) b with
      | (.ok _, b') => logEach f log xs b'
      | (.error _, _) => []

/-- A log may be rewritten entry by entry. -/
theorem logEach_map (f : α → Step Bench β) (log : α → Bench → List γ) (g : γ → δ) (xs : List α)
    (b : Bench) :
    logEach f (fun x b => (log x b).map g) xs b = (logEach f log xs b).map g := by
  induction xs generalizing b with
  | nil => rfl
  | cons x xs ih =>
    unfold logEach
    rw [List.map_append]
    split
    · rw [ih]
    · rfl

/-- What a step leaves behind is what its log stands for. -/
def Logs (A : Reading γ) (m : Step Bench α) (log : Bench → List γ) : Prop :=
  ∀ b : Bench, b.Loaded → ∃ events, b.Runs events (exec m b).2 ∧ A.reads events (log b)

namespace Logs

variable {A : Reading γ} {m : Step Bench α} {log later : Bench → List γ}

/-- What leaves nothing to be read has an empty log. -/
theorem of_performs {P : Event → Prop} (performs : Performs P m)
    (silent : ∀ events, (∀ event ∈ events, P event) → A.reads events []) :
    Logs A m fun _ => [] := by
  intro b loaded
  obtain ⟨events, runs, all⟩ := performs b loaded
  exact ⟨events, runs, silent events all⟩

theorem pure (a : α) : Logs A (Pure.pure a : Step Bench α) fun _ => [] :=
  fun _ loaded => ⟨[], .refl loaded, A.nil⟩

/-- The log of what follows comes after that of the first part, if it succeeds. -/
theorem bind {f : α → Step Bench β} (first : Logs A m log) (rest : ∀ a, Logs A (f a) later) :
    Logs A (m >>= f) fun b => log b ++
      match exec m b with
      | (.ok _, b') => later b'
      | (.error _, _) => [] := by
  intro b loaded
  obtain ⟨events, runs, read⟩ := first b loaded
  rw [exec_bind]
  dsimp only
  cases outcome : exec m b with
  | mk result b₁ =>
    rw [outcome] at runs
    cases result with
    | error error => exact ⟨events, runs, by rwa [List.append_nil]⟩
    | ok a =>
      obtain ⟨events', runs', read'⟩ := rest a b₁ runs.loaded
      exact ⟨events ++ events', runs.trans runs', A.append read read'⟩

/-- What follows and leaves nothing to be read adds nothing. -/
theorem bind_silent {f : α → Step Bench β} (first : Logs A m log)
    (rest : ∀ a, Logs A (f a) fun _ => []) : Logs A (m >>= f) log := by
  intro b loaded
  obtain ⟨events, runs, read⟩ := first.bind rest b loaded
  refine ⟨events, runs, ?_⟩
  dsimp only at read
  split at read <;> rwa [List.append_nil] at read

theorem forM {f : α → Step Bench Unit} {each : α → Bench → List γ} {xs : List α}
    (h : ∀ x ∈ xs, Logs A (f x) (each x)) : Logs A (xs.forM f) (logEach f each xs) := by
  induction xs with
  | nil => exact pure _
  | cons x xs ih =>
    exact (h x List.mem_cons_self).bind fun _ => ih fun y hy => h y (List.mem_cons_of_mem x hy)

theorem mapM {f : α → Step Bench β} {each : α → Bench → List γ} {xs : List α}
    (h : ∀ x ∈ xs, Logs A (f x) (each x)) : Logs A (xs.mapM f) (logEach f each xs) := by
  induction xs with
  | nil => exact pure _
  | cons x xs ih =>
    rw [List.mapM_cons]
    refine (h x List.mem_cons_self).bind fun _ => ?_
    exact (ih fun y hy => h y (List.mem_cons_of_mem x hy)).bind_silent fun _ => pure _

end Logs

end Step

open Step (Logs logEach)

/-! ## Logs of declarations -/

namespace Session

variable {γ : Type} {A : Reading γ}

/-- The log of a declaration, from those of its variants. -/
def declarationLog (store : Store) (declaration : Declaration) (spliced : Bool)
    (each : NameSet → Tree.Variant → Bench → List γ) (b : Bench) : List γ :=
  match prepareAll store b.session.draft declaration with
  | .ok (body, guards, units) =>
    logEach (declareVariant declaration units spliced) (each units)
      (Tree.expandDefaults declaration.name declaration.params guards body b.session.config.stem) b
  | .error _ => []

theorem declarationLog_map {δ : Type} (store : Store) (declaration : Declaration) (spliced : Bool)
    (each : NameSet → Tree.Variant → Bench → List γ) (g : γ → δ) :
    declarationLog store declaration spliced (fun units v b => (each units v b).map g) =
      fun b => (declarationLog store declaration spliced each b).map g := by
  funext b
  unfold declarationLog
  split
  · exact Step.logEach_map ..
  · rfl

/-- **Declarations.**  Their log is that of their variants, if what a declaration requires when all
of them are declared leaves nothing more to be read. -/
theorem define_logs (store : Store) (declaration : Declaration) (spliced : Bool)
    {each : NameSet → Tree.Variant → Bench → List γ}
    (variant : ∀ {units v}, v.Proper →
      Logs A (declareVariant declaration units spliced v) (each units v))
    (require : ∀ {units variants admissions b b' events}, variants ≠ [] →
      exec (variants.mapM (declareVariant declaration units spliced)) b = (.ok admissions, b') →
      A.reads events
        (logEach (declareVariant declaration units spliced) (each units) variants b) →
      A.reads (events ++ [.require units.toList])
        (logEach (declareVariant declaration units spliced) (each units) variants b)) :
    Logs A (define store declaration spliced) (declarationLog store declaration spliced each) := by
  intro b loaded
  unfold define declarationLog
  rw [Step.exec_get_bind]
  cases prepared : prepareAll store b.session.draft declaration with
  | error error => exact ⟨[], .refl loaded, A.nil⟩
  | ok result =>
    obtain ⟨body, guards, units⟩ := result
    obtain ⟨isBody, areGuards⟩ := isExpression_of_prepareAll prepared
    rw [Step.exec_lift_ok_bind]
    dsimp only
    have variants : Logs A ((Tree.expandDefaults declaration.name declaration.params guards body
        b.session.config.stem).mapM (declareVariant declaration units spliced)) _ :=
      .mapM fun v member => variant (Tree.proper_of_mem_expandDefaults isBody areGuards member)
    obtain ⟨events, runs, read⟩ := variants b loaded
    cases outcome : exec ((Tree.expandDefaults declaration.name declaration.params guards body
        b.session.config.stem).mapM (declareVariant declaration units spliced)) b with
    | mk result b₁ =>
      rw [outcome] at runs
      cases result with
      | error error =>
        rw [Step.exec_bind_of_error outcome]
        exact ⟨events, runs, read⟩
      | ok admissions =>
        rw [Step.exec_bind_of_ok outcome]
        cases empty : units.isEmpty with
        | true => exact ⟨events, runs, read⟩
        | false =>
          -- There is a variant of which the requirement is.
          obtain ⟨b₂, required, runs'⟩ := exec_require runs.loaded units.toList
          rw [runs.unit_eq] at required
          rw [Bool.not_false, if_pos rfl, Step.exec_bind_of_ok required]
          exact ⟨events ++ [.require units.toList], runs.trans runs',
            require (by simp [Tree.expandDefaults]) outcome read⟩

end Session

/-! ## Logs of commands -/

section Commands

variable {γ : Type} {A : Reading γ} {each : Store → Command → Bench → List γ}

/-- A log of commands is true if it is so of whatever a session works at; opening leaves its log to
be given otherwise, and finishing leaves nothing to be read. -/
structure Command.Keeps (A : Reading γ) (each : Store → Command → Bench → List γ) : Prop where
  /-- What a session works at has the log of the command. -/
  works : ∀ {store : Store} {command : Command} {m : Step Bench Reply},
    command.work? store = some m → Logs A m (each store command)
  /-- The other commands have no log. -/
  idle : ∀ {store : Store} {command : Command}, command.work? store = none →
    ∀ b, each store command b = []
  /-- Closing leaves nothing to be read, -/
  closing : A.reads [.close] []
  /-- and neither does completing. -/
  completing : A.reads [.close, .complete] []

namespace Workspace

/-- What a command adds to the log of a unit. -/
def logOf (each : Store → Command → Bench → List γ) (unit : String) (w : Workspace)
    (command : Command) : List γ :=
  if command.unit = unit then
    match w.sessions.get? unit with
    | some s => each w.store command (w.bench s)
    | none => []
  else []

/-- The log of a unit over commands. -/
def logAll (each : Store → Command → Bench → List γ) (unit : String) :
    Workspace → List Command → List γ
  | _, [] => []
  | w, command :: commands =>
    w.logOf each unit command ++ logAll each unit (w.after command) commands

variable {w : Workspace}

/-- A unit that has a session is not opened again, and the attempt changes nothing. -/
theorem Coherent.after_reopening (h : w.Coherent) {s : Session} {command : Command}
    (session : w.sessions.get? command.unit = some s)
    (isOpening : (∃ config unit fields, command = .openRoot config unit fields) ∨
      ∃ config unit base fields, command = .openExtension config unit base fields) :
    w.after command = w := by
  rcases isOpening with ⟨config, unit, fields, rfl⟩ | ⟨config, unit, base, fields, rfl⟩
  · show (exec (opening unit (Site.openRoot config unit fields)) w).2 = w
    rw [exec_opening]
    rcases Site.exec_openRoot_cases w.toSite config unit fields with
      ⟨error, failed, -⟩ | ⟨merged, fresh, -⟩
    · rw [failed]
    · exact absurd rfl (h.ne_of_fresh session fresh)
  · show (exec (opening unit (Site.openExtension config unit base fields)) w).2 = w
    rw [exec_opening]
    rcases Site.exec_openExtension_cases w.toSite config unit base fields with
      ⟨error, failed, -⟩ | ⟨registry, resolution, result, b, -, resolved, fresh, -, -⟩
    · rw [failed]
    · obtain ⟨rfl, -⟩ := draft_of_resolve resolved
      exact absurd rfl (h.ne_of_fresh session fresh)

/-- Finishing leaves nothing to be read. -/
theorem Coherent.finish_logs (h : w.Coherent) (keeps : Command.Keeps A each) {unit : String}
    {s : Session} (session : w.sessions.get? unit = some s) :
    ∃ b events, (w.bench s).Runs events b ∧ A.reads events [] ∧
      (w.after (.finish unit)).sessions = w.sessions.insert unit b.session ∧
      (w.after (.finish unit)).program = b.program := by
  obtain ⟨b, events, runs, steps, left⟩ := h.finish_runs session
  refine ⟨b, events, runs, ?_, left⟩
  rcases steps with rfl | rfl | rfl
  · exact A.nil
  · exact keeps.closing
  · exact keeps.completing

/-- What a session leaves behind in a workspace is read as it was at its bench. -/
theorem Coherent.logs_of_runs (h : w.Coherent) {unit : String} {s : Session} {image : Image}
    (session : w.sessions.get? unit = some s) (held : w.program.units.get? unit = some image)
    {b : Bench} {events : List Event} {log : List γ} {w' : Workspace}
    (runs : (w.bench s).Runs events b) (read : A.reads events log)
    (sessions : w'.sessions = w.sessions.insert unit b.session) (program : w'.program = b.program) :
    ∃ s' image' events, w'.sessions.get? unit = some s' ∧ w'.program.units.get? unit = some image' ∧
      Trace ⟨s, image⟩ events ⟨s', image'⟩ ∧ A.reads events log := by
  obtain ⟨image', held', trace⟩ := h.shown_after session held runs
  refine ⟨b.session, image', events, ?_, by rw [program, held'], trace, read⟩
  rw [sessions, get?_sessions_insert, if_pos rfl]

/-- **One command.**  What it does to a session is what its log stands for. -/
theorem Coherent.logs_after (h : w.Coherent) (keeps : Command.Keeps A each) {unit : String}
    {s : Session} {image : Image} (session : w.sessions.get? unit = some s)
    (held : w.program.units.get? unit = some image) (command : Command) :
    ∃ s' image' events, (w.after command).sessions.get? unit = some s' ∧
      (w.after command).program.units.get? unit = some image' ∧
      Trace ⟨s, image⟩ events ⟨s', image'⟩ ∧ A.reads events (w.logOf each unit command) := by
  unfold logOf
  by_cases same : command.unit = unit
  · subst same
    rw [if_pos rfl, session]
    dsimp only
    cases isWork : command.work? w.store with
    | some m =>
      obtain ⟨events, runs, read⟩ := keeps.works isWork (w.bench s) (h.loaded session)
      have performed := exec_perform_of_work isWork
      rw [session] at performed
      have after : w.after command = w.withBench command.unit (exec m (w.bench s)).2 :=
        congrArg Prod.snd performed
      rw [after]
      exact h.logs_of_runs session held runs read rfl rfl
    | none =>
      rw [keeps.idle isWork]
      cases command with
      | openRoot config unit fields =>
        rw [h.after_reopening session (.inl ⟨_, _, _, rfl⟩)]
        exact ⟨s, image, [], session, held, .nil _, A.nil⟩
      | openExtension config unit base fields =>
        rw [h.after_reopening session (.inr ⟨_, _, _, _, rfl⟩)]
        exact ⟨s, image, [], session, held, .nil _, A.nil⟩
      | finish unit =>
        obtain ⟨b, events, runs, read, sessions, program⟩ := h.finish_logs keeps session
        exact h.logs_of_runs session held runs read sessions program
      | define | grant | withhold | importRoutines | setHooks | run => cases isWork
  · rw [if_neg same]
    obtain ⟨s', image', events, session', held', trace, -, other⟩ :=
      h.session_after session held command
    obtain rfl := other same
    exact ⟨s', image', [], session', held', trace, A.nil⟩

/-- **A run of commands.**  What it does to a session is what the log of its unit stands for. -/
theorem Coherent.logs_afterAll (h : w.Coherent) (keeps : Command.Keeps A each) {unit : String}
    {s : Session} {image : Image} (session : w.sessions.get? unit = some s)
    (held : w.program.units.get? unit = some image) (commands : List Command) :
    ∃ s' image' events, (w.afterAll commands).sessions.get? unit = some s' ∧
      (w.afterAll commands).program.units.get? unit = some image' ∧
      Trace ⟨s, image⟩ events ⟨s', image'⟩ ∧ A.reads events (w.logAll each unit commands) := by
  induction commands generalizing w s image with
  | nil => exact ⟨s, image, [], session, held, .nil _, A.nil⟩
  | cons command commands ih =>
    obtain ⟨s₁, image₁, events, session₁, held₁, trace, read⟩ :=
      h.logs_after keeps session held command
    obtain ⟨s', image', events', session', held', trace', read'⟩ :=
      ih (h.after command) session₁ held₁
    exact ⟨s', image', events ++ events', session', held', trace.append trace',
      A.append read read'⟩

end Workspace

end Commands

end Heredity
