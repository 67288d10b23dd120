import Heredity.Proofs.Availability

/-!
# What published units require

A unit can be completed only if every unit that it requires has been opened.  This file says what
that is worth: when exactly a unit is published, and which of the units that it requires have been
published by then.

* `Command.Mentions` — a command names a unit by a qualified call.
* `Workspace.Known` — a unit is published, or some command has named it.
* `Workspace.Rests` — the sessions name known units only; `Rests.after` keeps it.
* `Coherent.finish_iff` — when a unit is published.
* `published_requirements` — what it rests on then.
* `published_on_broken` — a unit is published on one that could not be finished.

**The base and the sources of imports are published** before anything refers to them, since their
registries are read.  So a required unit that is not published can only come from a qualified call
that someone has written.
-/

namespace Heredity

open Step (exec Safe)

/-! ## Naming units by commands -/

/-- The statements that a command executes or leaves for extensions. -/
def Command.statements : Command → List Statement
  | .define _ declaration => [.define declaration]
  | .run _ statement _ => [statement]
  | .setHooks _ pre post => (pre.toList ++ post.toList).flatten
  | _ => []

/-- A command names a unit by a qualified call in a statement. -/
def Command.Mentions (command : Command) (unit : String) : Prop :=
  ∃ s ∈ command.statements, ∃ t ∈ s.trees, unit ∈ t.remoteUnits

namespace Workspace

/-- A unit has been compiled: its image is complete and its registry is published. -/
def Compiled (w : Workspace) (unit : String) : Prop :=
  (∃ registry, w.store.get? unit = some registry) ∧
    ∃ image, w.program.units.get? unit = some image ∧ image.closed = true

/-- A unit is published, or one of the commands has named it. -/
def Known (w : Workspace) (commands : List Command) (unit : String) : Prop :=
  (∃ registry, w.store.get? unit = some registry) ∨ ∃ command ∈ commands, command.Mentions unit

/-- After commands, every session names known units only, and its base is published. -/
def Rests (commands : List Command) (w : Workspace) : Prop :=
  ∀ (unit : String) (s : Session), w.sessions.get? unit = some s →
    (w.bench s).Sound w.store unit (w.Known commands) fun _ => False

end Workspace

/-! ## Sound sessions -/

namespace Bench.Sound

variable {store store' : Store} {name : String} {named named' loaded : String → Prop} {b b' : Bench}

/-- A sound session stays sound while others work. -/
theorem transfer (h : b.Sound store name named loaded) (session : b'.session = b.session)
    (image : b'.program.units.get? name = b.program.units.get? name)
    (published : ∀ unit registry, store.get? unit = some registry →
      ∃ registry', store'.get? unit = some registry')
    (sub : ∀ unit, named unit → named' unit) : b'.Sound store' name named' fun _ => False := by
  obtain ⟨w, shows', within⟩ := h.within
  have unit_eq : b'.unit = b.unit := by rw [Bench.unit, session, Bench.unit]
  refine ⟨unit_eq.trans h.unit, ⟨w, ⟨session.trans shows'.1, ?_⟩, ?_⟩, ?_, fun _ no => no.elim⟩
  · rw [unit_eq, h.unit, image, ← h.unit]
    exact shows'.2
  · exact ⟨within.draft.mono sub, fun u required => sub u (within.requires u required)⟩
  · intro base isBase
    rw [session] at isBase
    obtain ⟨registry, found⟩ := h.base base isBase
    exact published base registry found

end Bench.Sound

/-- Imports from a unit that is not published fail, and change nothing. -/
theorem Session.importRoutines_sound {store : Store} {name : String} {named loaded : String → Prop}
    {b : Bench} (sound : b.Sound store name named loaded)
    (known : ∀ unit registry, store.get? unit = some registry → named registry.unit)
    (source : Value) (keys : Option (List Key)) :
    (exec (importRoutines store source keys) b).2.Sound store name named loaded := by
  have refused : ∀ error, store.requireValue source b.unit = .error error →
      (exec (importRoutines store source keys) b).2 = b := by
    intro error missing
    unfold importRoutines
    rw [Step.exec_get_bind, missing]
    rfl
  cases required : store.requireValue source b.unit with
  | error error => rwa [refused error required]
  | ok registry =>
    unfold Store.requireValue Store.require at required
    split at required
    · next unit =>
      split at required
      · next found =>
        exact (importRoutines_safe found (known unit _ found) keys b sound).1
      · cases required
    · cases required

/-- **What a session works at** keeps it sound, if the units that the command names are named. -/
theorem Command.work?_sound {command : Command} {store : Store} {m : Step Bench Reply}
    (isWork : command.work? store = some m) {name : String} {named loaded : String → Prop}
    (mentioned : ∀ unit, command.Mentions unit → named unit)
    (known : ∀ unit registry, store.get? unit = some registry → named registry.unit) {b : Bench}
    (sound : b.Sound store name named loaded) : (exec m b).2.Sound store name named loaded := by
  have written : ∀ s ∈ command.statements, s.Within named :=
    fun s member t isTree u names => mentioned u ⟨s, member, t, isTree, names⟩
  cases command with
  | openRoot | openExtension | finish => cases isWork
  | define unit declaration =>
    cases isWork
    exact ((Session.define_safe (written _ List.mem_cons_self) false).bind fun _ => .pure _) b
      sound |>.1
  | grant unit key =>
    cases isWork
    exact ((Session.grant_safe key).bind fun _ => .pure _) b sound |>.1
  | withhold unit key =>
    cases isWork
    exact ((Session.withhold_safe key).bind fun _ => .pure _) b sound |>.1
  | importRoutines unit source keys =>
    cases isWork
    have imported := Session.importRoutines_sound sound known source keys
    rw [Step.exec_bind]
    cases outcome : exec (Session.importRoutines store source keys) b with
    | mk result b' =>
      rw [outcome] at imported
      cases result <;> exact imported
  | setHooks unit pre post =>
    cases isWork
    refine ((Session.setHooks_safe fun hook member s inside => ?_).bind fun _ => .pure _) b
      sound |>.1
    exact written s (List.mem_flatten.2 ⟨hook, member, inside⟩)
  | run unit statement spliced =>
    cases isWork
    exact ((Session.run_safe (written _ List.mem_cons_self) spliced).bind fun _ => .pure _) b
      sound |>.1

namespace Workspace

variable {w : Workspace} {commands : List Command} {command : Command} {unit : String}

theorem Coherent.known_after (h : w.Coherent) (known : w.Known commands unit) (command : Command) :
    (w.after command).Known (commands ++ [command]) unit := by
  rcases known with ⟨registry, published⟩ | ⟨c, member, mentions⟩
  · exact .inl ⟨registry, h.store_after published⟩
  · exact .inr ⟨c, List.mem_append_left _ member, mentions⟩

/-- A published registry names known units only. -/
theorem Rests.published (rests : w.Rests commands) (h : w.Coherent) {registry : Registry}
    (published : w.store.get? unit = some registry) : registry.Within (w.Known commands) := by
  obtain ⟨s, session, -, rfl⟩ := h.published published
  obtain ⟨w', shows', within⟩ := (rests unit s session).within
  have same : s = w'.session := shows'.1
  rw [same]
  exact within.draft

/-- A published registry has the name under which it is published. -/
theorem Coherent.unit_of_published (h : w.Coherent) {registry : Registry}
    (published : w.store.get? unit = some registry) : registry.unit = unit := by
  obtain ⟨s, session, -, rfl⟩ := h.published published
  exact (h.session session).1

/-- **What an extension inherits** names known units only, if the base does. -/
theorem Rests.openExtension_rests (rests : w.Rests commands) (h : w.Coherent) {config : Config}
    {base : String} {fields : Value} {registry : Registry} {resolution : Resolution}
    (published : w.store.get? base = some registry)
    (resolved : resolve registry fields unit config = .ok resolution) {result : Except Error Unit}
    {b : Bench} (put : exec (Session.materialize w.store resolution.emissions)
      (w.toSite.openingBench config resolution.draft) = (result, b)) :
    b.Sound w.store unit (w.Known commands) fun _ => False := by
  have within := rests.published h published
  have unit_eq := h.unit_of_published published
  have isBase : w.Known commands registry.unit := .inl ⟨registry, unit_eq.symm ▸ published⟩
  have opening := w.toSite.openingBench_resolved_sound resolved within isBase
    ⟨registry, unit_eq.symm ▸ published⟩
  have kept := (Session.materialize_safe_of_resolve resolved within isBase _ opening).1
  rw [put] at kept
  exact { kept with loaded := fun _ no => no.elim }

/-- A session that was there before the command. -/
theorem Rests.sound (rests : w.Rests commands) {s : Session}
    (session : w.sessions.get? unit = some s) (command : Command) :
    (w.bench s).Sound w.store unit (w.Known (commands ++ [command])) fun _ => False :=
  (rests unit s session).transfer rfl rfl (fun _ registry published => ⟨registry, published⟩)
    fun _ known => known.imp_right fun ⟨c, member, mentions⟩ =>
      ⟨c, List.mem_append_left _ member, mentions⟩

/-- What a command leaves to the session that it is for, where it changes nothing else. -/
def Settles (w : Workspace) (commands : List Command) (command : Command) : Prop :=
  ∀ s, (w.after command).sessions.get? command.unit = some s →
    ∃ b : Bench, b.session = s ∧
      b.program.units.get? command.unit = (w.after command).program.units.get? command.unit ∧
      b.Sound w.store command.unit (w.Known (commands ++ [command])) fun _ => False

/-- A command that is refused. -/
theorem Rests.settles_of_same (rests : w.Rests commands) (same : w.after command = w) :
    w.Settles commands command := by
  intro s session
  rw [same] at session
  exact ⟨w.bench s, rfl, by rw [same]; rfl, rests.sound session command⟩

/-- A command after which the session of its unit is that of a sound bench. -/
theorem settles_of_bench {b : Bench}
    (sessions : (w.after command).sessions = w.sessions.insert command.unit b.session)
    (program : (w.after command).program = b.program)
    (sound : b.Sound w.store command.unit (w.Known (commands ++ [command])) fun _ => False) :
    w.Settles commands command := by
  intro s session
  rw [sessions, get?_sessions_insert, if_pos rfl] at session
  exact ⟨b, Option.some.inj session, by rw [program], sound⟩

/-- **Opening a root.** -/
theorem Rests.settles_openRoot (rests : w.Rests commands) (config : Config) (unit : String)
    (fields : Value) : w.Settles commands (.openRoot config unit fields) := by
  have after : w.after (.openRoot config unit fields) =
      (exec (opening unit (Site.openRoot config unit fields)) w).2 := rfl
  rw [exec_opening] at after
  rcases w.toSite.exec_openRoot_cases config unit fields with
    ⟨error, failed, -⟩ | ⟨merged, -, opened⟩
  · rw [failed] at after
    exact rests.settles_of_same after
  · rw [opened] at after
    exact settles_of_bench (by rw [after]; rfl) (by rw [after]; rfl)
      { w.toSite.openingBench_root_sound config unit merged with loaded := fun _ no => no.elim }

/-- **Opening an extension.** -/
theorem Rests.settles_openExtension (rests : w.Rests commands) (h : w.Coherent) (config : Config)
    (unit base : String) (fields : Value) :
    w.Settles commands (.openExtension config unit base fields) := by
  have after : w.after (.openExtension config unit base fields) =
      (exec (opening unit (Site.openExtension config unit base fields)) w).2 := rfl
  rw [exec_opening] at after
  rcases w.toSite.exec_openExtension_cases config unit base fields with
    ⟨error, failed, -⟩ | ⟨registry, resolution, result, b, published, resolved, fresh, put, opened⟩
  · rw [failed] at after
    exact rests.settles_of_same after
  · rw [opened] at after
    cases result with
    | error error =>
      -- The unit is stuck without a session.
      intro s session
      rw [after] at session
      obtain ⟨named, -⟩ := draft_of_resolve resolved
      exact absurd named.symm (h.ne_of_fresh session fresh)
    | ok _ =>
      have sound := rests.openExtension_rests h published resolved put
      refine settles_of_bench (by rw [after]; rfl) (by rw [after]; rfl) (sound.transfer rfl rfl
        (fun _ registry published => ⟨registry, published⟩) fun _ known => ?_)
      exact known.imp_right fun ⟨c, member, mentions⟩ =>
        ⟨c, List.mem_append_left _ member, mentions⟩

/-- **Working.** -/
theorem Rests.settles_work (rests : w.Rests commands) (h : w.Coherent) {m : Step Bench Reply}
    (isWork : command.work? w.store = some m) : w.Settles commands command := by
  have performed := exec_perform_of_work isWork
  cases session : w.sessions.get? command.unit with
  | none =>
    rw [session] at performed
    exact rests.settles_of_same (congrArg Prod.snd performed)
  | some s =>
    rw [session] at performed
    have after : w.after command = w.withBench command.unit (exec m (w.bench s)).2 :=
      congrArg Prod.snd performed
    refine settles_of_bench (by rw [after]; rfl) (by rw [after]; rfl)
      (Command.work?_sound isWork (fun u mentions => ?_) (fun u registry published => ?_)
        (rests.sound session command))
    · exact .inr ⟨command, List.mem_append_right _ (List.mem_singleton_self command), mentions⟩
    · exact .inl ⟨registry, (h.unit_of_published published).symm ▸ published⟩

/-- **Finishing.** -/
theorem Rests.settles_finish (rests : w.Rests commands) (h : w.Coherent) (unit : String) :
    w.Settles commands (.finish unit) := by
  cases session : w.sessions.get? unit with
  | none =>
    refine rests.settles_of_same ?_
    show (exec (onSession unit Site.finish >>= fun r => pure (Reply.published r)) w).2 = w
    rw [Step.exec_bind_of_error (exec_onSession_of_missing session _)]
  | some s =>
    obtain ⟨b, events, runs, steps, sessions, program⟩ := h.finish_runs session
    refine settles_of_bench sessions program ((rests.sound session _).runs runs ?_)
    rcases steps with rfl | rfl | rfl <;> simp [Event.Within]

/-- **Every command.** -/
theorem Rests.settles (rests : w.Rests commands) (h : w.Coherent) (command : Command) :
    w.Settles commands command := by
  cases command with
  | openRoot config unit fields => exact rests.settles_openRoot config unit fields
  | openExtension config unit base fields =>
    exact rests.settles_openExtension h config unit base fields
  | finish unit => exact rests.settles_finish h unit
  | define | grant | withhold | importRoutines | setHooks | run => exact rests.settles_work h rfl

theorem rests_empty : (∅ : Workspace).Rests [] := by
  intro unit s session
  cases session

/-- **One command.**  Sessions go on naming known units only. -/
theorem Rests.after (rests : w.Rests commands) (h : w.Coherent) (command : Command) :
    (w.after command).Rests (commands ++ [command]) := by
  intro unit s session
  have stays : ∀ other registry, w.store.get? other = some registry →
      ∃ registry', (w.after command).store.get? other = some registry' :=
    fun _ registry published => ⟨registry, h.store_after published⟩
  by_cases own : unit = command.unit
  · subst own
    obtain ⟨b, same, image, sound⟩ := rests.settles h command s session
    refine sound.transfer same.symm image.symm stays fun u known => ?_
    rcases known with ⟨registry, published⟩ | mentioned
    · exact .inl ⟨registry, h.store_after published⟩
    · exact .inr mentioned
  · have before := (h.sessions_elsewhere_after own).symm.trans session
    exact (rests unit s before).transfer rfl (h.elsewhere_after own) stays
      fun u known => h.known_after known command

/-- **Commands one after the other.** -/
theorem Rests.afterAll {past : List Command} (rests : w.Rests past) (h : w.Coherent)
    (commands : List Command) : (w.afterAll commands).Rests (past ++ commands) := by
  induction commands generalizing w past with
  | nil => rwa [List.append_nil]
  | cons command commands ih =>
    have later := ih (rests.after h command) (h.after command)
    rwa [List.append_assoc] at later

/-! ## Finishing -/

theorem outcome_finish_of_missing (missing : w.sessions.get? unit = none) :
    w.outcome (.finish unit) = .error (.fault .missingKey) :=
  congrArg Prod.fst (exec_finish_of_missing missing)

/-- Where a unit lacks others, only its draft is closed, and the failure names what is missing. -/
theorem Coherent.exec_finish_of_lacking (h : w.Coherent) {s : Session} {image : Image}
    (session : w.sessions.get? unit = some s) (held : w.program.units.get? unit = some image)
    (writable : s.draft.closed = false) (apart : s.draft.recordsWithheld = false)
    (lacking : w.program.missing image ≠ []) :
    exec (perform (.finish unit)) w =
      (.error (.requirementsNotLoaded unit (w.program.missing image)),
        w.withBench unit ((w.bench s).withDraft { s.draft with closed := true })) := by
  have named : s.draft.unit = unit := (h.session session).1
  have closes : (w.bench s).session.draft.close =
      .ok (s.draft.toRegistry, { s.draft with closed := true }) := by
    show s.draft.close = _
    rw [Draft.close_eq, writable, apart]
    rfl
  have refused : (w.bench s).program.closeUnit (w.bench s).unit s.draft.toRegistry =
      .error (.requirementsNotLoaded s.draft.unit (w.program.missing image)) :=
    (Program.closeUnit_eq _ ((congrArg w.program.units.get? named).trans held)).trans
      (if_neg lacking)
  rw [exec_perform_finish session, Session.exec_close, closes]
  dsimp only
  rw [refused, named]

/-- **The outcome of finishing a unit**, as its session and its image decide it.  Of the units that
it requires only those are missed that were not opened. -/
theorem Coherent.outcome_finish (h : w.Coherent) {s : Session} {image : Image}
    (session : w.sessions.get? unit = some s) (held : w.program.units.get? unit = some image) :
    w.outcome (.finish unit) =
      if s.draft.closed then .error (.registryClosed unit)
      else if s.draft.recordsWithheld then .error .withheldRecorded
      else if w.program.missing image = [] then .ok (.published s.draft.toRegistry)
      else .error (.requirementsNotLoaded unit (w.program.missing image)) := by
  have named : s.draft.unit = unit := (h.session session).1
  have closing : (w.bench s).session.draft.close = s.draft.close := rfl
  show (exec (perform (.finish unit)) w).1 = _
  by_cases closed : s.draft.closed = true
  · rw [exec_perform_finish session, Session.exec_close, closing, Draft.close_eq, if_pos closed,
      if_pos closed, named]
  rw [if_neg closed]
  by_cases recorded : s.draft.recordsWithheld = true
  · rw [exec_perform_finish session, Session.exec_close, closing, Draft.close_eq, if_neg closed,
      if_pos recorded, if_pos recorded]
  rw [if_neg recorded]
  rw [Bool.not_eq_true] at closed recorded
  by_cases complete : w.program.missing image = []
  · have closes := Session.exec_close_of_complete (b := w.bench s)
      ((congrArg w.program.units.get? named).trans held) closed recorded complete
    rw [h.exec_finish_of_close session closed named closes, if_pos complete]
  · rw [h.exec_finish_of_lacking session held closed recorded complete, if_neg complete]

/-- A unit is ready to be finished: its session is open and records nothing that it withholds, and
every unit that its image requires has been opened. -/
def Ready (w : Workspace) (unit : String) : Prop :=
  ∃ s image, w.sessions.get? unit = some s ∧ w.program.units.get? unit = some image ∧
    s.draft.closed = false ∧ s.draft.recordsWithheld = false ∧
      ∀ other, image.requires.contains other = true → w.program.contains other = true

/-- **When a unit is published.**  What it requires must have been opened, but no more than that. -/
theorem Coherent.finish_iff (h : w.Coherent) :
    (∃ registry, w.outcome (.finish unit) = .ok (.published registry)) ↔ w.Ready unit := by
  cases session : w.sessions.get? unit with
  | none =>
    rw [outcome_finish_of_missing session]
    constructor
    · rintro ⟨registry, done⟩
      cases done
    · rintro ⟨s, -, isSession, -⟩
      cases session.symm.trans isSession
  | some s =>
    obtain ⟨-, image, held, -⟩ := h.session session
    rw [h.outcome_finish session held]
    constructor
    · rintro ⟨registry, done⟩
      split at done
      · cases done
      · next writable =>
        split at done
        · cases done
        · next apart =>
          split at done
          · next complete =>
            exact ⟨s, image, session, held, Bool.eq_false_iff.2 writable,
              Bool.eq_false_iff.2 apart, Program.missing_eq_nil_iff.1 complete⟩
          · cases done
    · rintro ⟨s', image', session', held', writable, apart, opened⟩
      cases session.symm.trans session'
      cases held.symm.trans held'
      rw [writable, apart, if_pos (Program.missing_eq_nil_iff.2 opened)]
      exact ⟨_, rfl⟩

/-- What finishing leaves behind, where it succeeds. -/
theorem Coherent.after_finish (h : w.Coherent) (ready : w.Ready unit) :
    ∃ (s : Session) (image : Image),
      w.outcome (.finish unit) = .ok (.published s.draft.toRegistry) ∧
      (w.after (.finish unit)).store.get? unit = some s.draft.toRegistry ∧
      w.program.units.get? unit = some image ∧
      (∀ other, image.requires.contains other = true → w.program.contains other = true) ∧
      (w.after (.finish unit)).program =
        w.program.setImage unit { image with withheld := s.draft.withheld, closed := true } := by
  obtain ⟨s, image, session, held, writable, apart, opened⟩ := ready
  have named : s.draft.unit = unit := (h.session session).1
  have closes := Session.exec_close_of_complete (b := w.bench s)
    ((congrArg w.program.units.get? named).trans held) writable apart
    (Program.missing_eq_nil_iff.2 opened)
  have performed := h.exec_finish_of_close session writable named closes
  have after : w.after (.finish unit) = _ := congrArg Prod.snd performed
  refine ⟨s, image, congrArg Prod.fst performed, ?_, held, opened, ?_⟩
  · rw [after]
    show (w.store.published.insert s.draft.unit s.draft.toRegistry).get? unit = _
    rw [named]
    exact Table.get?_insert_self _ BEq.rfl _
  · rw [after]
    show w.program.setImage s.draft.unit _ = _
    rw [named]
    rfl

/-- **What is missing** where finishing fails for want of units: exactly the required units that
were not opened.  Nothing is published then. -/
theorem Coherent.refused_finish (h : w.Coherent) {missing : List String}
    (refused : w.outcome (.finish unit) = .error (.requirementsNotLoaded unit missing)) :
    missing ≠ [] ∧ ∃ image, w.program.units.get? unit = some image ∧
      (∀ other, other ∈ missing ↔ image.requires.contains other = true ∧
        w.program.contains other = false) ∧
      (w.after (.finish unit)).store = w.store := by
  cases session : w.sessions.get? unit with
  | none =>
    rw [outcome_finish_of_missing session] at refused
    cases refused
  | some s =>
    obtain ⟨-, image, held, -⟩ := h.session session
    have outcome := refused.symm.trans (h.outcome_finish session held)
    split at outcome
    · cases outcome
    · next writable =>
      split at outcome
      · cases outcome
      · next apart =>
        split at outcome
        · cases outcome
        · next lacking =>
          cases outcome
          have performed := h.exec_finish_of_lacking session held (Bool.eq_false_iff.2 writable)
            (Bool.eq_false_iff.2 apart) lacking
          exact ⟨lacking, image, held, fun other => Program.mem_missing_iff,
            congrArg (fun r => r.2.store) performed⟩

/-! ## What published units rest on -/

/-- A published unit is compiled. -/
theorem Coherent.compiled (h : w.Coherent) {registry : Registry}
    (published : w.store.get? unit = some registry) : w.Compiled unit := by
  obtain ⟨s, session, -⟩ := h.published published
  obtain ⟨-, image, held, -⟩ := h.session session
  exact ⟨⟨registry, published⟩, image, held, (h.completed published session held).image⟩

/-- **What a unit rests on** that was published with a registry, after commands: its base is
compiled, and a unit that it requires is compiled as well, or it has been opened and one of the
commands names it by a qualified call. -/
structure Supported (w : Workspace) (commands : List Command) (unit : String)
    (registry : Registry) : Prop where
  /-- The registry is published. -/
  published : w.store.get? unit = some registry
  /-- The unit itself is compiled. -/
  compiled : w.Compiled unit
  /-- Its base is compiled. -/
  base : ∀ base, registry.base = some base → w.Compiled base
  /-- A unit that it requires has been opened. -/
  opened : ∀ image other, w.program.units.get? unit = some image →
    image.requires.contains other = true → w.program.contains other = true
  /-- It is compiled, or a command names it. -/
  requires : ∀ image other, w.program.units.get? unit = some image →
    image.requires.contains other = true →
      w.Compiled other ∨ ∃ command ∈ commands, command.Mentions other

/-- A unit that has just been published is supported. -/
theorem Rests.supported (rests : w.Rests commands) (h : w.Coherent) (ready : w.Ready unit)
    {registry : Registry} (finished : w.outcome (.finish unit) = .ok (.published registry)) :
    (w.after (.finish unit)).Supported commands unit registry := by
  obtain ⟨s, image, outcome, published, held, opened, program⟩ := h.after_finish ready
  cases finished.symm.trans outcome
  have h' := h.after (.finish unit)
  have rests' := rests.after h (.finish unit)
  obtain ⟨s', session', -, registered⟩ := h'.published published
  have sound := rests' unit s' session'
  obtain ⟨w', shows', within⟩ := sound.within
  have unit_eq : ((w.after (.finish unit)).bench s').unit = unit := sound.unit
  have held' : (w.after (.finish unit)).program.units.get? unit = some w'.image := by
    have shown := shows'.2
    rwa [unit_eq] at shown
  refine ⟨published, h'.compiled published, fun base isBase => ?_,
    fun image' other isImage required => ?_, fun image' other isImage required => ?_⟩
  · rw [← registered] at isBase
    obtain ⟨registry, isPublished⟩ := sound.base base isBase
    exact h'.compiled isPublished
  · rw [program, Program.get?_setImage, if_pos rfl, Option.some.injEq] at isImage
    subst isImage
    rw [program, Program.contains, Program.setImage, Table.contains_insert,
      Bool.or_eq_true]
    exact .inr (opened other required)
  · cases held'.symm.trans isImage
    rcases within.requires other required with ⟨registry, isPublished⟩ | ⟨c, member, mentions⟩
    · exact .inl (h'.compiled isPublished)
    · rcases List.mem_append.1 member with isCommand | isFinish
      · exact .inr ⟨c, isCommand, mentions⟩
      · -- Finishing writes no statement.
        obtain rfl := List.mem_singleton.1 isFinish
        obtain ⟨statement, written, -⟩ := mentions
        cases written

/-- **What published units require.**  After any commands, in whatever order they work on units: a
unit is published exactly if its session is open, records nothing that it withholds, and every unit
that its image requires has been opened.  If some were not, finishing names exactly those.  When the
unit is published, its base is compiled, and so is each unit that it requires, unless a command
has named that unit by a qualified call: then it may be open still, or have failed. -/
theorem published_requirements (commands : List Command) (unit : String) :
    ((∃ registry, (afterAll ∅ commands).outcome (.finish unit) = .ok (.published registry)) ↔
        (afterAll ∅ commands).Ready unit) ∧
      (∀ registry, (afterAll ∅ commands).outcome (.finish unit) = .ok (.published registry) →
        ((afterAll ∅ commands).after (.finish unit)).Supported commands unit registry) ∧
      ∀ missing, (afterAll ∅ commands).outcome (.finish unit) =
          .error (.requirementsNotLoaded unit missing) →
        missing ≠ [] ∧ ∃ image, (afterAll ∅ commands).program.units.get? unit = some image ∧
          (∀ other, other ∈ missing ↔ image.requires.contains other = true ∧
            (afterAll ∅ commands).program.contains other = false) ∧
          ((afterAll ∅ commands).after (.finish unit)).store = (afterAll ∅ commands).store := by
  have coherent : (afterAll ∅ commands).Coherent := (Reachable.empty.afterAll commands).coherent
  have rests : (afterAll ∅ commands).Rests commands :=
    rests_empty.afterAll Reachable.empty.coherent commands
  refine ⟨coherent.finish_iff, fun registry finished => ?_, fun missing refused => ?_⟩
  · exact rests.supported coherent (coherent.finish_iff.1 ⟨registry, finished⟩) finished
  · exact coherent.refused_finish refused

/-- A unit cannot be finished, since what it calls was never opened; and another calls that unit. -/
def requiringCommands : List Command :=
  [.openRoot {} "broken" (.list []),
    .define "broken" ⟨"f", [], .remoteCall "nowhere" "f" [], [], false, false⟩,
    .finish "broken",
    .openRoot {} "unit" (.list []),
    .define "unit" ⟨"f", [], .remoteCall "broken" "f" [], [], false, false⟩]

/-- The second unit is ready, and supported when it is published; the first was refused, since the
unit that it requires was not opened. -/
theorem published_requirements_requiringCommands :
    (∃ registry,
      (afterAll ∅ requiringCommands).outcome (.finish "unit") = .ok (.published registry) ∧
        ((afterAll ∅ requiringCommands).after (.finish "unit")).Supported requiringCommands "unit"
          registry) ∧
      (afterAll ∅ (requiringCommands.take 2)).outcome (.finish "broken") =
        .error (.requirementsNotLoaded "broken" ["nowhere"]) ∧
      ∃ image, (afterAll ∅ (requiringCommands.take 2)).program.units.get? "broken" = some image ∧
        image.requires.contains "nowhere" = true := by
  have evaluated : ((afterAll ∅ requiringCommands).sessions.get? "unit").map
        (fun s => (s.draft.closed, s.draft.recordsWithheld)) = some (false, false) ∧
      ((afterAll ∅ requiringCommands).program.units.get? "unit").map
        (afterAll ∅ requiringCommands).program.missing = some [] ∧
      (afterAll ∅ (requiringCommands.take 2)).outcome (.finish "broken") =
        .error (.requirementsNotLoaded "broken" ["nowhere"]) := by
    cbv
  obtain ⟨written, complete, refused⟩ := evaluated
  obtain ⟨s, session, facts⟩ := Option.map_eq_some_iff.1 written
  obtain ⟨image, held, lacksNone⟩ := Option.map_eq_some_iff.1 complete
  obtain ⟨writable, apart⟩ := Prod.mk.inj facts
  obtain ⟨ready, supported, -⟩ := published_requirements requiringCommands "unit"
  obtain ⟨registry, finished⟩ := ready.2
    ⟨s, image, session, held, writable, apart, Program.missing_eq_nil_iff.1 lacksNone⟩
  obtain ⟨-, image', held', missing, -⟩ :=
    (published_requirements (requiringCommands.take 2) "broken").2.2 _ refused
  exact ⟨⟨registry, finished, supported registry finished⟩, refused, image', held',
    ((missing _).1 (List.mem_singleton_self _)).1⟩

/-- **A unit is published on one that is not compiled**, and that could not be finished: neither is
its image complete, nor has it been published. -/
theorem published_on_broken :
    ((afterAll ∅ requiringCommands).outcome (.finish "broken") =
        .error (.registryClosed "broken")) ∧
      (((afterAll ∅ requiringCommands).after (.finish "unit")).store.get? "unit").isSome = true ∧
      (((afterAll ∅ requiringCommands).after (.finish "unit")).program.units.get? "unit").map
        (fun image => (image.closed, image.requires.contains "broken")) = some (true, true) ∧
      (((afterAll ∅ requiringCommands).after (.finish "unit")).program.units.get? "broken").map
        Image.closed = some false ∧
      ((afterAll ∅ requiringCommands).after (.finish "unit")).store.get? "broken" = none := by
  cbv

end Workspace

end Heredity
