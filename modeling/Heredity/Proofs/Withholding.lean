import Mathlib.Logic.Relation
import Heredity.Proofs.Agreement
import Heredity.Proofs.Locking

/-!
# What is withheld stays withheld

A key that a unit withholds is withheld by every unit below it, however long the chain of bases is
and whatever the units in between grant, declare or have executed by their hooks.

* `Store.Extends` — a published unit extends another; its transitive closure is the descent of
  units.
* `Event.Respects` — an own event that declares a routine at a key only where that is allowed;
  `Command.work?_respects` and `Session.splice_respects` say what commands and hooks allow.
* `Writing.Heir` — what a unit in writing keeps to, given the registry of its base.
* `Workspace.Undeclared` — no command declares a key, but for commands that are refused.
* `withheld_of_descends` — the law of withholding.

**Two inductions.**  Commands keep every unit to the rules of its base (`Coherent.heirs_after`), and
the rules of a base are handed down link by link along the chain.  A unit gets to the key of a
withheld routine only by a declaration, since nothing that is inherited is at such a key.

**Refused commands do not count.**  A declaration of which some variant is refused may still have
declared others.  So a command is left out of account only if it leaves everything as it was.
-/

namespace Heredity

open Step (exec)

/-- A published unit extends another one. -/
def Store.Extends (s : Store) (unit base : String) : Prop :=
  ∃ registry, s.get? unit = some registry ∧ registry.base = some base

/-! ## Declarations at a key -/

/-- Whether a statement declares a routine at a key. -/
def Statement.declares (key : Key) : Statement → Bool
  | .define declaration => declaration.declares key
  | _ => false

/-- Whether a hook that is executed in the extensions of a unit declares a routine at a key. -/
def Registry.hooksDeclare (registry : Registry) (key : Key) : Bool :=
  (registry.preHook.toList ++ registry.postHook.toList).any (·.any (Statement.declares key))

/-- The unit's own events, which declare a routine at a key only if that is allowed. -/
def Event.Respects (key : Key) (allowed : Bool) (event : Event) : Prop :=
  event.isOwn = true ∧ (event.declares key = true → allowed = true)

theorem Event.Respects.of_silent {key : Key} {allowed : Bool} {event : Event}
    (own : event.isOwn = true) (silent : event.declares key = false) :
    event.Respects key allowed :=
  ⟨own, fun declares => absurd declares (Bool.eq_false_iff.1 silent)⟩

theorem Event.Respects.mono {key : Key} {allowed allowed' : Bool} {event : Event}
    (h : event.Respects key allowed) (sub : allowed = true → allowed' = true) :
    event.Respects key allowed' :=
  ⟨h.1, fun declares => sub (h.2 declares)⟩

/-- Whether an event may put a routine into the image at a key. -/
def Event.puts (key : Key) : Event → Bool
  | .declare e _ _ => e.key == key
  | .inherit e => e.key == key
  | _ => false

/-- An own event puts something at a key only by a declaration. -/
theorem Event.Respects.puts_eq_false {key : Key} {event : Event} (h : event.Respects key false) :
    event.puts key = false := by
  obtain ⟨own, silent⟩ := h
  rw [Bool.eq_false_iff]
  intro puts
  cases event with
  | declare e units admission => cases silent puts
  | inherit e => cases own
  | _ => cases puts

/-- An event that puts nothing at a key leaves open whether the image holds something there. -/
theorem Moves.contains_eq {w w' : Writing} {event : Event} {key : Key} (h : Moves w event w')
    (elsewhere : event.puts key = false) :
    w'.image.routines.contains key = w.image.routines.contains key := by
  have held : ∀ e : Emission, (e.key == key) = false → ∀ d : Draft,
      ((w.withDraft d).hold e).image.routines.contains key =
        w.image.routines.contains key := by
    intro e other d
    rw [Writing.routines_hold, Table.contains_insert, other, Bool.false_or, Writing.image_withDraft]
  cases h with
  | declarePrivate | declareRecorded => exact held _ elsewhere _
  | declareLocal => exact held _ elsewhere w.draft
  | inherit => exact held _ elsewhere w.draft
  | _ => rfl

theorem Trace.contains_eq {w w' : Writing} {events : List Event} {key : Key}
    (h : Trace w events w') (elsewhere : ∀ event ∈ events, event.puts key = false) :
    w'.image.routines.contains key = w.image.routines.contains key :=
  h.invariant (I := fun v => v.image.routines.contains key = w.image.routines.contains key)
    (fun _ event _ member move same => (move.contains_eq (elsewhere event member)).trans same) rfl

namespace Session

variable (store : Store) (key : Key)

/-- A declaration declares at most the keys of its variants, whether it succeeds or not. -/
theorem define_respects (declaration : Declaration) (spliced : Bool) :
    Step.Performs (Event.Respects key (declaration.declares key))
      (define store declaration spliced) := by
  intro b loaded
  rcases define_runs loaded store declaration spliced with
    ⟨error, -, failed⟩ | ⟨body, guards, units, admissions, variants, b', -, rfl, outcome⟩
  · exact ⟨[], by rw [failed]; exact .refl loaded, by simp⟩
  have declared : ∀ event ∈ declarations declaration units
      (Tree.expandDefaults declaration.name declaration.params guards body b.session.config.stem)
      admissions, event.Respects key (declaration.declares key) := by
    intro event member
    obtain ⟨v, variant, admission, rfl⟩ := exists_of_mem_declarations member
    exact ⟨rfl, fun agrees => (any_declares_iff declaration guards body _ key).1
      ⟨v, variant, agrees⟩⟩
  rcases outcome with ⟨done, -, runs⟩ | ⟨error, failed, -, -, runs⟩
  · refine ⟨_, by rw [done]; exact runs, fun event member => ?_⟩
    rcases List.mem_append.1 member with member | member
    · exact declared event member
    · obtain rfl := eq_of_mem_requirement member
      exact .of_silent rfl rfl
  · exact ⟨_, by rw [failed]; exact runs, declared⟩

theorem run_respects (statement : Statement) (spliced : Bool) :
    Step.Performs (Event.Respects key (statement.declares key))
      (run store spliced statement) := by
  cases statement with
  | define declaration =>
    refine (define_respects store key declaration spliced).bind fun admissions => ?_
    split
    · refine (grantRecorded_performs _ _ admissions).mono fun event ⟨_, granted⟩ => ?_
      exact granted ▸ .of_silent rfl rfl
    · exact .of_unchanged fun _ => rfl
  | grant k => exact (grant_performs k).mono fun _ same => same ▸ .of_silent rfl rfl
  | withhold k => exact (withhold_performs k).mono fun _ same => same ▸ .of_silent rfl rfl

theorem splice_respects (hooks : List Hook) :
    Step.Performs (Event.Respects key (hooks.any (·.any (Statement.declares key))))
      (splice store hooks) := by
  refine .forM fun hook isHook => .forM fun statement isStatement => ?_
  refine (run_respects store key statement true).mono fun event h => h.mono fun declares => ?_
  exact List.any_eq_true.2 ⟨hook, isHook, List.any_eq_true.2 ⟨statement, isStatement, declares⟩⟩

end Session

/-- What a session works at declares at most what the command says. -/
theorem Command.work?_respects {command : Command} {store : Store} {m : Step Bench Reply}
    (h : command.work? store = some m) (key : Key) :
    Step.Performs (Event.Respects key (command.declares command.unit key)) m := by
  have answers : ∀ reply : Reply, Step.Performs
      (Event.Respects key (command.declares command.unit key)) (pure reply : Step Bench Reply) :=
    fun _ => .of_unchanged fun _ => rfl
  cases command with
  | openRoot | openExtension | finish => cases h
  | define unit declaration =>
    cases h
    refine Step.Performs.bind ?_ fun _ => answers _
    refine (Session.define_respects store key declaration false).mono fun event h => h.mono ?_
    simp [Command.declares, Command.unit]
  | grant unit k =>
    cases h
    exact (Session.run_respects store key (.grant k) false).bind fun _ => answers _
  | withhold unit k =>
    cases h
    exact (Session.run_respects store key (.withhold k) false).bind fun _ => answers _
  | importRoutines unit source keys =>
    cases h
    refine Step.Performs.bind ?_ fun _ => answers _
    refine (Session.importRoutines_performs store source keys).mono ?_
    rintro _ ⟨_, _, rfl⟩
    exact .of_silent rfl rfl
  | setHooks unit pre post =>
    cases h
    refine Step.Performs.bind ?_ fun _ => answers _
    exact (Session.setHooks_performs pre post).mono fun _ same => same ▸ .of_silent rfl rfl
  | run unit statement spliced =>
    cases h
    refine Step.Performs.bind ?_ fun _ => answers _
    refine (Session.run_respects store key statement spliced).mono fun event h => h.mono ?_
    cases statement with
    | define declaration => simp [Command.declares, Command.unit, Statement.declares]
    | grant | withhold =>
      intro declares
      cases declares

/-! ## Heirs -/

/-- What a unit in writing keeps to at a key, given the registry of its base.  The second part
speaks of units that do not declare the key themselves: `silent` stands for that. -/
structure Writing.Heir (silent : Prop) (key : Key) (registry : Registry) (w : Writing) : Prop where
  /-- What the base withholds is withheld. -/
  withheld : registry.withheld.contains key = true → w.draft.withheld.contains key = true
  /-- What the base withholds is not held, unless the unit or a hook of the base declares it. -/
  lacks : registry.withheld.contains key = true → registry.hooksDeclare key = false → silent →
    w.image.routines.contains key = false

namespace Writing.Heir

variable {silent : Prop} {key : Key} {registry : Registry} {w w' : Writing}

/-- A unit keeps to the rules of its base as long as it declares nothing at the key. -/
theorem trace (h : w.Heir silent key registry) {events : List Event} (trace : Trace w events w')
    (spares : silent → ∀ event ∈ events, event.Respects key false) :
    w'.Heir silent key registry where
  withheld isWithheld := trace.withheld_mono (h.withheld isWithheld)
  lacks isWithheld noHook isSilent := by
    rw [trace.contains_eq fun event member => (spares isSilent event member).puts_eq_false]
    exact h.lacks isWithheld noHook isSilent

/-- **Opening.**  When what it inherits is in place, an extension keeps to the rules of its base. -/
theorem opened {config : Config} {fields : Value} {unit : String} {resolution : Resolution}
    {pre post : List Event} (resolved : resolve registry fields unit config = .ok resolution)
    (respects : ∀ event ∈ pre ++ post, event.Respects key (registry.hooksDeclare key))
    (trace : Trace (.opened config resolution.draft)
      (pre ++ (resolution.emissions.routines.map .inherit ++
        (.require resolution.emissions.requires :: post))) w) : w.Heir silent key registry where
  withheld isWithheld := by
    obtain ⟨-, -, -, -, withheld, -⟩ := draft_of_resolve resolved
    have opened : (Writing.opened config resolution.draft).draft.withheld.contains key = true := by
      rw [draft_opened, withheld]
      exact isWithheld
    exact trace.withheld_mono opened
  lacks isWithheld noHook _ := by
    have emitted : ∀ e ∈ resolution.emissions.routines, (e.key == key) = false := by
      intro e member
      rw [emissions_eq resolved] at member
      obtain ⟨⟨key', r⟩, stored, rfl⟩ := List.mem_map.1 member
      have recorded := Table.get?_eq_some_iff.2 ⟨key', stored, BEq.rfl⟩
      obtain ⟨-, -, -, passedOn, -⟩ := (get?_inherited_iff resolved).1 recorded
      rw [Bool.eq_false_iff]
      intro agrees
      have agrees : (key' == key) = true := agrees
      rw [Table.contains_congr _ agrees] at passedOn
      exact Bool.false_ne_true (passedOn.symm.trans isWithheld)
    have own : ∀ event ∈ pre ++ post, event.puts key = false := by
      rw [noHook] at respects
      exact fun event member => (respects event member).puts_eq_false
    -- The image is empty at first, and no event puts anything at the key.
    refine (trace.contains_eq fun event member => ?_).trans rfl
    rcases List.mem_append.1 member with member | member
    · exact own event (List.mem_append_left _ member)
    rcases List.mem_append.1 member with member | member
    · obtain ⟨e, emission, rfl⟩ := List.mem_map.1 member
      exact emitted e emission
    rcases List.mem_cons.1 member with rfl | member
    · rfl
    · exact own event (List.mem_append_right _ member)

end Writing.Heir

namespace Workspace

variable {w : Workspace}

/-- What a command does to a session that exists is events of a kind, if what sessions work at is,
and no declaration is needed for it.  If the command is for another unit, it is no event at all. -/
theorem Coherent.session_performs (h : w.Coherent) {P : Event → Prop} {unit : String} {s : Session}
    {image : Image} (session : w.sessions.get? unit = some s)
    (held : w.program.units.get? unit = some image) {command : Command}
    (works : ∀ m, command.unit = unit → command.work? w.store = some m → Step.Performs P m)
    (silent : ∀ event : Event, event.isOwn = true → event.isDeclaration = false → P event) :
    ∃ s' image' events, (w.after command).sessions.get? unit = some s' ∧
      (w.after command).program.units.get? unit = some image' ∧
      Trace ⟨s, image⟩ events ⟨s', image'⟩ ∧ ∀ event ∈ events, P event := by
  cases isWork : command.work? w.store with
  | some m =>
    by_cases same : command.unit = unit
    · obtain ⟨events, runs, all⟩ := works m same isWork (w.bench s) (h.loaded session)
      obtain ⟨image', held', trace⟩ := h.shown_after session held runs
      have performed := exec_perform_of_work isWork
      rw [same, session] at performed
      have after : w.after command = w.withBench unit (exec m (w.bench s)).2 :=
        congrArg Prod.snd performed
      refine ⟨_, image', events, ?_, by rw [after]; exact held', trace, all⟩
      rw [after]
      exact (get?_sessions_insert _ _ _ _).trans (if_pos rfl)
    · obtain ⟨s', image', events, session', held', trace, -, other⟩ :=
        h.session_after session held command
      obtain rfl := other same
      exact ⟨s', image', [], session', held', trace, by simp⟩
  | none =>
    -- Opening and finishing declare nothing for a unit that has a session.
    obtain ⟨s', image', events, session', held', trace, allowed, -⟩ :=
      h.session_after session held command
    have undeclared : command.isDeclaration = false := by
      cases command with
      | openRoot | openExtension | finish => rfl
      | define | grant | withhold | importRoutines | setHooks | run => cases isWork
    refine ⟨s', image', events, session', held', trace, fun event member => ?_⟩
    obtain ⟨own, declares⟩ := allowed event member
    refine silent event own (Bool.eq_false_iff.2 fun isDeclaration => ?_)
    cases undeclared.symm.trans (declares isDeclaration)

/-- What a command does to a session that exists declares at most what the command says. -/
theorem Coherent.session_respects (h : w.Coherent) {unit : String} {s : Session} {image : Image}
    (session : w.sessions.get? unit = some s) (held : w.program.units.get? unit = some image)
    (command : Command) (key : Key) :
    ∃ s' image' events, (w.after command).sessions.get? unit = some s' ∧
      (w.after command).program.units.get? unit = some image' ∧
      Trace ⟨s, image⟩ events ⟨s', image'⟩ ∧
      ∀ event ∈ events, event.Respects key (command.declares unit key) := by
  refine h.session_performs session held
    (fun _ same isWork => same ▸ Command.work?_respects isWork key)
    fun event own undeclared => .of_silent own ?_
  cases event with
  | declare => cases undeclared
  | _ => rfl

/-- The operation of a session opens no other. -/
theorem get?_sessions_onSession {α : Type} {unit other : String}
    (f : Session → StateM Site (Except Error α × Session)) (k : α → Reply)
    (absent : w.sessions.get? other = none) :
    (exec (onSession unit f >>= fun a => pure (k a)) w).2.sessions.get? other = none := by
  have kept : (exec (onSession unit f) w).2.sessions.get? other = none := by
    cases session : w.sessions.get? unit with
    | none => rwa [exec_onSession_of_missing session]
    | some s =>
      rw [exec_onSession session]
      refine (get?_sessions_insert _ _ _ _).trans ?_
      rw [if_neg, absent]
      rintro rfl
      cases absent.symm.trans session
  rw [Step.exec_bind]
  cases outcome : exec (onSession unit f) w with
  | mk result w' =>
    rw [outcome] at kept
    cases result <;> exact kept

/-- A session that is new after a command has been opened by it. -/
theorem opens_of_new {command : Command} {unit : String} {s : Session}
    (session : (w.after command).sessions.get? unit = some s) (new : w.sessions.get? unit = none) :
    (∃ config fields, command = .openRoot config unit fields) ∨
      ∃ config base fields, command = .openExtension config unit base fields := by
  have opening : ∀ {u : String} {f : Step Site Session},
      (exec (opening u f) w).2.sessions.get? unit = some s → u = unit := by
    intro u f session
    rw [exec_opening] at session
    split at session
    · have session : (w.sessions.insert u _).get? unit = some s := session
      rw [get?_sessions_insert] at session
      split at session
      · assumption
      · cases session.symm.trans new
    · cases session.symm.trans new
  cases command with
  | openRoot config u fields =>
    obtain rfl := opening session
    exact .inl ⟨config, fields, rfl⟩
  | openExtension config u base fields =>
    obtain rfl := opening session
    exact .inr ⟨config, base, fields, rfl⟩
  | define | grant | withhold | importRoutines | setHooks | run | finish =>
    cases (get?_sessions_onSession _ _ new).symm.trans session

/-- An extension that has just been opened has its base published, and what led to it are the events
of the hooks of the base and those that put in place what is inherited. -/
theorem extension_of_new {config : Config} {unit base : String}
    {fields : Value} {s : Session} {image : Image} {P : Registry → Event → Prop}
    (hooked : ∀ registry hooks, w.store.get? base = some registry →
      hooks ⊆ registry.preHook.toList ++ registry.postHook.toList →
      Step.Performs (P registry) (Session.splice w.store hooks))
    (session : (w.after (.openExtension config unit base fields)).sessions.get? unit = some s)
    (held : (w.after (.openExtension config unit base fields)).program.units.get? unit = some image)
    (new : w.sessions.get? unit = none) :
    ∃ registry resolution pre post, w.store.get? base = some registry ∧
      resolve registry fields unit config = .ok resolution ∧
      (∀ event ∈ pre ++ post, P registry event) ∧
      Trace (.opened config resolution.draft)
        (pre ++ (resolution.emissions.routines.map .inherit ++
          (.require resolution.emissions.requires :: post))) ⟨s, image⟩ := by
  have after : w.after (.openExtension config unit base fields) =
      (exec (opening unit (Site.openExtension config unit base fields)) w).2 := rfl
  rw [after, exec_opening] at session held
  rcases Site.exec_openExtension_cases w.toSite config unit base fields with
    ⟨error, failed, -⟩ | ⟨registry, resolution, result, b, published, resolved, -, put, opened⟩
  · rw [failed] at session
    cases session.symm.trans new
  have emissions : resolution.emissions.preHooks = registry.preHook.toList ∧
      resolution.emissions.postHooks = registry.postHook.toList := by
    obtain ⟨merged, routines, -, -, -, emissions⟩ := resolve_eq_ok resolved
    rw [emissions]
    exact ⟨rfl, rfl⟩
  have shows' := w.toSite.openingBench_shows config resolution.draft
  obtain ⟨pre, post, first, last, outcome⟩ :=
    Session.materialize_performs (P := P registry) shows'.loaded w.store resolution.emissions
      (hooked registry _ published (by rw [emissions.1]; exact List.subset_append_left _ _))
      (hooked registry _ published (by rw [emissions.2]; exact List.subset_append_right _ _))
  rw [opened] at session held
  rcases outcome with ⟨error, b', failed, -⟩ | ⟨b', done, runs⟩
  · cases put.symm.trans failed
    cases session.symm.trans new
  · cases put.symm.trans done
    have session : (w.sessions.insert unit b.session).get? unit = some s := session
    rw [get?_sessions_insert, if_pos rfl] at session
    cases session
    obtain ⟨w₁, ⟨s', image'⟩, shows₁, ⟨rfl, held'⟩, trace, -⟩ := runs
    obtain rfl := shows'.unique shows₁
    obtain ⟨rfl, -⟩ := draft_of_resolve resolved
    have unit_eq : b.session.draft.unit = resolution.draft.unit := trace.unit_eq
    rw [Bench.unit, unit_eq] at held'
    cases held.symm.trans held'
    refine ⟨registry, resolution, pre, post, published, resolved, fun event member => ?_, trace⟩
    exact (List.mem_append.1 member).elim (first event) (last event)

/-- A root that has just been opened has nothing but its fields. -/
theorem draft_of_new_root {config : Config} {unit : String} {fields : Value} {s : Session}
    (session : (w.after (.openRoot config unit fields)).sessions.get? unit = some s)
    (new : w.sessions.get? unit = none) :
    ∃ merged, mergeFields ∅ fields = .ok merged ∧
      s.draft = { unit := unit, fields := merged } := by
  have after : w.after (.openRoot config unit fields) =
      (exec (opening unit (Site.openRoot config unit fields)) w).2 := rfl
  rw [after, exec_opening] at session
  rcases Site.exec_openRoot_cases w.toSite config unit fields with
    ⟨error, failed, -⟩ | ⟨merged, -, opened⟩
  · rw [failed] at session
    cases session.symm.trans new
  · rw [opened] at session
    have session : (w.sessions.insert unit _).get? unit = some s := session
    rw [get?_sessions_insert, if_pos rfl] at session
    cases session
    exact ⟨merged, Site.mergeFields_of_openRoot (congrArg Prod.fst opened), rfl⟩

/-- The session of a unit that extends another one keeps to its rules, and that one is published. -/
def Heirs (silent : Prop) (unit : String) (key : Key) (w : Workspace) : Prop :=
  ∀ s image base, w.sessions.get? unit = some s → w.program.units.get? unit = some image →
    s.draft.base = some base →
      ∃ registry, w.store.get? base = some registry ∧ Writing.Heir silent key registry ⟨s, image⟩

/-- **One command** leaves a unit an heir of its base, if it declares nothing at the key or is
refused where that counts. -/
theorem Coherent.heirs_after (h : w.Coherent) {silent : Prop} {unit : String} {key : Key}
    (heirs : w.Heirs silent unit key) {command : Command}
    (spares : silent → command.declares unit key = true → w.after command = w) :
    (w.after command).Heirs silent unit key := by
  intro s image base session held isBase
  cases before : w.sessions.get? unit with
  | some s₀ =>
    obtain ⟨-, image₀, held₀, -⟩ := h.session before
    obtain ⟨s', image', events, session', held', trace, respects⟩ :=
      h.session_respects before held₀ command key
    cases session.symm.trans session'
    cases held.symm.trans held'
    have isBase₀ : s₀.draft.base = some base := trace.base_eq.symm.trans isBase
    obtain ⟨registry, published, heir⟩ := heirs s₀ image₀ base before held₀ isBase₀
    refine ⟨registry, h.store_after published, ?_⟩
    refine ⟨fun isWithheld => trace.withheld_mono (heir.withheld isWithheld), ?_⟩
    intro isWithheld noHook isSilent
    cases declares : command.declares unit key with
    | true =>
      rw [spares isSilent declares] at held
      cases held.symm.trans held₀
      exact heir.lacks isWithheld noHook isSilent
    | false =>
      rw [declares] at respects
      exact (heir.trace trace fun _ => respects).lacks isWithheld noHook isSilent
  | none =>
    rcases opens_of_new session before with ⟨config, fields, rfl⟩ | ⟨config, base', fields, rfl⟩
    · obtain ⟨merged, -, isDraft⟩ := draft_of_new_root session before
      rw [isDraft] at isBase
      cases isBase
    · obtain ⟨registry, resolution, pre, post, published, resolved, respects, trace⟩ :=
        extension_of_new (P := fun registry => Event.Respects key (registry.hooksDeclare key))
          (fun registry hooks _ sub => (Session.splice_respects w.store key hooks).mono
            fun event respects => respects.mono fun declares => by
              obtain ⟨hook, isHook, found⟩ := List.any_eq_true.1 declares
              exact List.any_eq_true.2 ⟨hook, sub isHook, found⟩)
          session held before
      obtain ⟨-, extended, -⟩ := draft_of_resolve resolved
      obtain ⟨s₁, session₁, -, rfl⟩ := h.published published
      obtain ⟨named, -⟩ := h.session session₁
      cases isBase.symm.trans (trace.base_eq.trans extended)
      refine ⟨_, h.store_after ?_, .opened resolved respects trace⟩
      exact (congrArg w.store.get? named).trans published

/-- No command declares a routine of a unit at a key, but for commands that are refused and leave
everything as it was. -/
def Undeclared (unit : String) (key : Key) : Workspace → List Command → Prop
  | _, [] => True
  | w, command :: commands =>
    (command.declares unit key = true → w.after command = w) ∧
      Undeclared unit key (w.after command) commands

theorem undeclared_of_forall {unit : String} {key : Key} {commands : List Command}
    (h : ∀ command ∈ commands, command.declares unit key = false) :
    Undeclared unit key w commands := by
  induction commands generalizing w with
  | nil => trivial
  | cons command commands ih =>
    refine ⟨fun declares => ?_, ih fun c member => h c (List.mem_cons_of_mem command member)⟩
    cases (h command List.mem_cons_self).symm.trans declares

/-- **A run of commands** leaves a unit an heir of its base. -/
theorem Coherent.heirs_afterAll (h : w.Coherent) {silent : Prop} {unit : String} {key : Key}
    (heirs : w.Heirs silent unit key) {commands : List Command}
    (spares : silent → Undeclared unit key w commands) :
    (w.afterAll commands).Heirs silent unit key := by
  induction commands generalizing w with
  | nil => exact heirs
  | cons command commands ih =>
    exact ih (h.after command) (h.heirs_after heirs fun isSilent => (spares isSilent).1)
      fun isSilent => (spares isSilent).2

/-- Every unit with a session is an heir of its base. -/
theorem heirs_of_commands (commands : List Command) (unit : String) (key : Key) :
    (afterAll ∅ commands).Heirs (Undeclared unit key ∅ commands) unit key :=
  Reachable.empty.coherent.heirs_afterAll (fun _ _ _ session => nomatch session) id

/-! ## Chains of bases -/

/-- **One link.**  The base of a published unit is published, and the unit is its heir. -/
theorem heir_of_extends {commands : List Command} {unit base : String}
    (extends' : (afterAll ∅ commands).store.Extends unit base) (key : Key) :
    ∃ s image registry, (afterAll ∅ commands).store.get? unit = some s.draft.toRegistry ∧
      (afterAll ∅ commands).program.units.get? unit = some image ∧
      (afterAll ∅ commands).store.get? base = some registry ∧
      Writing.Complete ⟨s, image⟩ ∧
      Writing.Heir (Undeclared unit key ∅ commands) key registry ⟨s, image⟩ := by
  have coherent := (Reachable.empty.afterAll commands).coherent
  obtain ⟨_, published, isBase⟩ := extends'
  obtain ⟨s, session, -, rfl⟩ := coherent.published published
  obtain ⟨-, image, held, -⟩ := coherent.session session
  obtain ⟨registry, publishedBase, heir⟩ :=
    heirs_of_commands commands unit key s image base session held isBase
  exact ⟨s, image, registry, published, held, publishedBase,
    coherent.completed published session held, heir⟩

/-- **Along a chain of bases** what is withheld above is withheld below. -/
theorem withheld_of_lineage {commands : List Command} {unit ancestor : String} {key : Key}
    {above : Registry} (published : (afterAll ∅ commands).store.get? ancestor = some above)
    (isWithheld : above.withheld.contains key = true)
    (descends : Relation.ReflTransGen (afterAll ∅ commands).store.Extends unit ancestor) :
    ∀ registry, (afterAll ∅ commands).store.get? unit = some registry →
      registry.withheld.contains key = true := by
  induction descends using Relation.ReflTransGen.head_induction_on with
  | refl =>
    intro registry publishedBelow
    cases publishedBelow.symm.trans published
    exact isWithheld
  | head link _ ih =>
    intro registry publishedBelow
    obtain ⟨s, image, base, stored, -, publishedBase, -, heir⟩ := heir_of_extends link key
    cases publishedBelow.symm.trans stored
    exact heir.withheld (ih base publishedBase)

end Workspace

/-- A call from outside of a key that a unit withholds and does not hold fails as withheld. -/
theorem Program.call_eq_withheld {p : Program} {unit name : String} {image : Image}
    {args : List Value} (held : p.units.get? unit = some image)
    (lacks : image.routines.contains (Key.ofCount name args.length) = false)
    (withheld : image.withheld.contains (Key.ofCount name args.length) = true) :
    p.call unit name args = .error (.withheldRoutine unit (Key.ofCount name args.length)) := by
  have absent := (Table.get?_eq_none_iff _ _).2 lacks
  have refused : callee image unit (Key.ofCount name args.length) none =
      .error (.withheldRoutine unit (Key.ofCount name args.length)) := by
    rw [callee, absent]
    exact if_pos withheld
  rw [call, callWithin, invokeWith, image_eq_ok held]
  simp only [bind, Except.bind, refused]

namespace Workspace

/-- **The law of withholding.**  Whatever commands are executed, let a published unit descend from
another one that withholds a key.  Then it withholds the key itself and records nothing there.  If
it never declares the key, by a command or through a hook of its base, then every call of the key
from outside fails as withheld. -/
theorem withheld_of_descends {commands : List Command} {unit ancestor : String}
    {below above : Registry} (published : (afterAll ∅ commands).store.get? unit = some below)
    (publishedAbove : (afterAll ∅ commands).store.get? ancestor = some above)
    (descends : Relation.TransGen (afterAll ∅ commands).store.Extends unit ancestor) :
    ∀ key, above.withheld.contains key = true →
      below.withheld.contains key = true ∧ below.routines.contains key = false ∧
        (Undeclared unit key ∅ commands →
          (∀ base registry, below.base = some base →
            (afterAll ∅ commands).store.get? base = some registry →
            registry.hooksDeclare key = false) →
          ∀ name args, (Key.ofCount name args.length == key) = true →
            (afterAll ∅ commands).program.call unit name args =
              .error (.withheldRoutine unit (Key.ofCount name args.length))) := by
  intro key isWithheld
  have coherent := (Reachable.empty.afterAll commands).coherent
  obtain ⟨base, link, upwards⟩ := Relation.TransGen.head'_iff.1 descends
  obtain ⟨s, image, registry, stored, held, publishedBase, complete, heir⟩ :=
    heir_of_extends link key
  cases published.symm.trans stored
  have inBase := withheld_of_lineage publishedAbove isWithheld upwards registry publishedBase
  have inBelow : s.draft.withheld.contains key = true := heir.withheld inBase
  obtain ⟨-, -, -, apart⟩ := coherent.published_agrees published held
  refine ⟨inBelow, apart inBelow, fun undeclared noHooks name args isKey => ?_⟩
  obtain ⟨_, stored', isBase⟩ := link
  cases published.symm.trans stored'
  have lacks := heir.lacks inBase (noHooks base registry isBase publishedBase) undeclared
  refine Program.call_eq_withheld held ?_ ?_
  · rw [Table.contains_congr _ isKey]
    exact lacks
  · rw [Table.contains_congr _ isKey]
    exact complete.withheld ▸ inBelow

/-- The commands by which three units are published, each the base of the next.  The first withholds
a routine, the second declares it for itself and has a hook that declares another, and the third
declares something else. -/
def withholdingCommands : List Command :=
  [.openRoot {} "top" (.list []),
    .define "top" ⟨"secret", [], .literal (.text "top"), [], false, false⟩,
    .withhold "top" (.ofCount "secret" 0),
    .finish "top",
    .openExtension {} "middle" "top" (.list []),
    .define "middle" ⟨"secret", [], .literal (.text "middle"), [], false, false⟩,
    .setHooks "middle" none
      (some [.define ⟨"greet", [], .literal (.text "hook"), [], false, true⟩]),
    .finish "middle",
    .openExtension {} "bottom" "middle" (.list []),
    .define "bottom" ⟨"other", [], .call "secret" [], [], false, false⟩,
    .finish "bottom"]

/-- The third unit does not get the routine, although the second one declares it again. -/
theorem withheld_of_withholdingCommands :
    (∃ below, (afterAll ∅ withholdingCommands).store.get? "bottom" = some below ∧
        below.withheld.contains (.ofCount "secret" 0) = true ∧
        below.routines.contains (.ofCount "secret" 0) = false) ∧
      (afterAll ∅ withholdingCommands).program.call "middle" "secret" [] = .ok (.text "middle") ∧
      (afterAll ∅ withholdingCommands).program.call "bottom" "secret" [] =
        .error (.withheldRoutine "bottom" (.ofCount "secret" 0)) := by
  have evaluated : ((afterAll ∅ withholdingCommands).store.get? "bottom").map Registry.base =
        some (some "middle") ∧
      ((afterAll ∅ withholdingCommands).store.get? "middle").map (fun registry =>
        (registry.base, registry.hooksDeclare (.ofCount "secret" 0))) =
          some (some "top", false) ∧
      ((afterAll ∅ withholdingCommands).store.get? "top").map (fun registry =>
        registry.withheld.contains (.ofCount "secret" 0)) = some true ∧
      (afterAll ∅ withholdingCommands).program.call "middle" "secret" [] =
        .ok (.text "middle") := by
    cbv
  obtain ⟨ofBottom, ofMiddle, ofTop, called⟩ := evaluated
  obtain ⟨bottom, published, bottomBase⟩ := Option.map_eq_some_iff.1 ofBottom
  obtain ⟨middle, publishedMiddle, middleFacts⟩ := Option.map_eq_some_iff.1 ofMiddle
  obtain ⟨top, publishedTop, isWithheld⟩ := Option.map_eq_some_iff.1 ofTop
  obtain ⟨middleBase, noHook⟩ := Prod.mk.injEq .. ▸ middleFacts
  have descends : Relation.TransGen (afterAll ∅ withholdingCommands).store.Extends "bottom" "top" :=
    .head ⟨bottom, published, bottomBase⟩ (.single ⟨middle, publishedMiddle, middleBase⟩)
  have undeclared : Undeclared "bottom" (.ofCount "secret" 0) ∅ withholdingCommands :=
    undeclared_of_forall (by decide)
  obtain ⟨inBottom, unrecorded, fails⟩ :=
    withheld_of_descends published publishedTop descends (.ofCount "secret" 0) isWithheld
  refine ⟨⟨bottom, published, inBottom, unrecorded⟩, called, ?_⟩
  refine fails undeclared ?_ "secret" [] rfl
  intro base registry isBase publishedBase
  cases isBase.symm.trans bottomBase
  cases publishedBase.symm.trans publishedMiddle
  exact noHook

end Workspace

end Heredity
