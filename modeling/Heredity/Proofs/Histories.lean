import Heredity.Proofs.Logs

/-!
# Histories of sessions

What a unit has declared, and how that was treated, cannot be read off its session.  Its history is
the log in which that is written down.

* `Treatment` — one variant of a declaration and how it was treated.
* `Treatment.latest` — the last variant at a key that took effect.
* `Session.defineHistory`, `statementHistory`, `spliceHistory`, `Workspace.history` — what is
  treated by a declaration, a statement, hooks, and commands.
* `Accounts` — events are the unit's own, and their declarations are a given history.
* `Trace.recounted` — what every own event keeps of a unit and its history, own events keep.
* `Step.Recounts` — what a step leaves behind is accounted for by its history.
* `Coherent.recounts_afterAll` — so is what commands do to a session.

**Failures are part of a history.**  A declaration that is refused at some variant has treated the
ones before it, and these are in its history.
-/

namespace Heredity

open Step (exec)

/-- A variant of a declaration, the units that the declaration calls, and how it was treated. -/
structure Treatment where
  /-- The variant. -/
  emission : Emission
  /-- The units that the declaration calls. -/
  units : NameSet
  /-- How it was treated. -/
  admission : Admission

namespace Treatment

/-- Whether a variant at a key was treated and took effect. -/
def takesEffect (key : Key) (t : Treatment) : Bool := t.emission.key == key && t.admission != .inert

/-- The last variant at a key that took effect. -/
def latest (key : Key) (history : List Treatment) : Option Emission :=
  (history.filter (takesEffect key)).getLast?.map Treatment.emission

variable {key : Key} {t : Treatment}

@[simp] theorem latest_nil (key : Key) : latest key [] = none := rfl

theorem latest_append (key : Key) (history later : List Treatment) :
    latest key (history ++ later) = (latest key later).or (latest key history) := by
  rw [latest, List.filter_append, List.getLast?_append, Option.map_or]
  rfl

theorem latest_singleton_of_effect (effect : t.takesEffect key = true) :
    latest key [t] = some t.emission := by
  simp [latest, effect]

theorem latest_singleton_of_none (none : t.takesEffect key = false) : latest key [t] = .none := by
  simp [latest, none]

theorem takesEffect_of_ne (other : ¬ (t.emission.key == key) = true) :
    t.takesEffect key = false := by
  simp [takesEffect, other]

end Treatment

/-- What an event treats. -/
def Event.treatment? : Event → Option Treatment
  | .declare e units admission => some ⟨e, units, admission⟩
  | _ => none

/-- Events are the unit's own, their declarations are a history, and what they require is called by
a declaration of that history. -/
structure Accounts (events : List Event) (history : List Treatment) : Prop where
  /-- The events are the unit's own. -/
  own : ∀ event ∈ events, event.isOwn = true
  /-- What they treat is the history. -/
  treated : events.filterMap Event.treatment? = history
  /-- What they require is called by a declaration. -/
  required : ∀ units, .require units ∈ events → ∃ t ∈ history, units = t.units.toList

namespace Accounts

variable {events events' : List Event} {history history' : List Treatment}

theorem nil : Accounts [] [] := ⟨by simp, rfl, by simp⟩

theorem append (h : Accounts events history) (h' : Accounts events' history') :
    Accounts (events ++ events') (history ++ history') where
  own event member := (List.mem_append.1 member).elim (h.own event) (h'.own event)
  treated := by rw [List.filterMap_append, h.treated, h'.treated]
  required units member := by
    rcases List.mem_append.1 member with member | member
    · obtain ⟨t, isTreated, same⟩ := h.required units member
      exact ⟨t, List.mem_append_left _ isTreated, same⟩
    · obtain ⟨t, isTreated, same⟩ := h'.required units member
      exact ⟨t, List.mem_append_right _ isTreated, same⟩

/-- Events that declare and require nothing have no history. -/
theorem of_silent (own : ∀ event ∈ events, event.isOwn = true)
    (silent : ∀ event ∈ events, event.treatment? = none)
    (modest : ∀ units, .require units ∉ events) : Accounts events [] :=
  ⟨own, List.filterMap_eq_nil_iff.2 silent, fun units member => absurd member (modest units)⟩

/-- Events are read as the history that accounts for them. -/
def reading : Reading Treatment := ⟨Accounts, .nil, .append⟩

end Accounts

/-! ## What own events leave in an image -/

open Treatment (latest)

/-- The treatments of one event. -/
def Event.treatments (event : Event) : List Treatment := event.treatment?.toList

/-- An inert declaration does not take effect. -/
theorem Event.latest_treatments_inert (key : Key) (e : Emission) (units : NameSet) :
    latest key (Event.declare e units .inert).treatments = none :=
  Treatment.latest_singleton_of_none (by simp [Treatment.takesEffect])

namespace Writing

variable {w : Writing}

/-- What is held after a declaration that takes effect. -/
theorem get?_hold {t : Treatment} (effective : t.admission ≠ .inert) (key : Key) :
    (w.hold t.emission).image.routines.get? key =
      (latest key [t]).or (w.image.routines.get? key) := by
  rw [routines_hold, Table.get?_insert]
  by_cases agrees : (t.emission.key == key) = true
  · rw [if_pos agrees, Treatment.latest_singleton_of_effect (by simp [Treatment.takesEffect, *])]
    rfl
  · rw [if_neg agrees, Treatment.latest_singleton_of_none (Treatment.takesEffect_of_ne agrees)]
    rfl

end Writing

/-- **What is held after one own event.** -/
theorem Moves.get?_of_own {w w' : Writing} {event : Event} (move : Moves w event w')
    (own : event.isOwn = true) (key : Key) :
    w'.image.routines.get? key =
      (latest key event.treatments).or (w.image.routines.get? key) := by
  cases move with
  | @declarePrivate e units => exact Writing.get?_hold (t := ⟨e, units, .isLocal⟩) nofun key
  | @declareLocal e units => exact Writing.get?_hold (t := ⟨e, units, .isLocal⟩) nofun key
  | @declareRecorded e units admission made isPublic writable notPrivate passedOn admitted =>
    refine Writing.get?_hold (t := ⟨e, units, admission⟩) ?_ key
    rintro rfl
    exact Bool.false_ne_true admitted.isRecorded
  | @declareInert e units =>
    rw [Event.latest_treatments_inert]
    rfl
  | skip | inherit => cases own
  | _ => rfl

namespace Trace

variable {w w' : Writing} {events : List Event} {history : List Treatment}

/-- **From one event to a trace.**  What holds of a unit and what it has declared, and is kept by
every own event, is kept by own events one after the other. -/
theorem recounted {I : List Treatment → Writing → Prop} (trace : Trace w events w')
    (accounts : Accounts events history)
    (step : ∀ {w event w' past}, event.isOwn = true → Moves w event w' → I past w →
      I (past ++ event.treatments) w') (start : I [] w) : I history w' := by
  obtain ⟨own, rfl, -⟩ := accounts
  exact trace.logged (fun member => step (own _ member)) start

/-- **What is held after own events.** -/
theorem get?_of_accounts (trace : Trace w events w') (accounts : Accounts events history)
    (key : Key) :
    w'.image.routines.get? key = (latest key history).or (w.image.routines.get? key) :=
  trace.recounted
    (I := fun past v =>
      v.image.routines.get? key = (latest key past).or (w.image.routines.get? key))
    accounts (fun own move held => by
      rw [move.get?_of_own own, held, ← Option.or_assoc, ← Treatment.latest_append]) rfl

end Trace

/-! ## Histories of steps -/

namespace Step

variable {α β : Type}

/-- The history of treating the members of a list one after the other, up to the first failure. -/
def historyEach (f : α → Step Bench β) (history : α → Bench → List Treatment) :
    List α → Bench → List Treatment
  | [], _ => []
  | x :: xs, b =>
    history x b ++
      match exec (f x) b with
      | (.ok _, b') => historyEach f history xs b'
      | (.error _, _) => []

/-- What a step leaves behind is accounted for by its history. -/
def Recounts (m : Step Bench α) (history : Bench → List Treatment) : Prop :=
  ∀ b : Bench, b.Loaded → ∃ events, b.Runs events (exec m b).2 ∧ Accounts events (history b)

/-- Histories are logs. -/
theorem historyEach_eq (f : α → Step Bench β) (history : α → Bench → List Treatment) :
    historyEach f history = logEach f history := by
  funext xs b
  induction xs generalizing b with
  | nil => rfl
  | cons x xs ih =>
    rw [historyEach, logEach]
    cases exec (f x) b with
    | mk result b' =>
      cases result with
      | error error => rfl
      | ok _ => exact congrArg (history x b ++ ·) (ih b')

/-- What declares and requires nothing has no history. -/
theorem Recounts.of_performs {m : Step Bench α} {P : Event → Prop} (performs : Performs P m)
    (silent : ∀ event, P event → event.isOwn = true ∧ event.treatment? = none ∧
      ∀ units, event ≠ .require units) : Recounts m fun _ => [] := by
  refine Logs.of_performs (A := Accounts.reading) performs fun events all =>
    .of_silent (fun event member => (silent event (all event member)).1)
      (fun event member => (silent event (all event member)).2.1) fun units member => ?_
  exact (silent _ (all _ member)).2.2 units rfl

/-- What follows and has no history adds nothing. -/
theorem Recounts.bind_silent {m : Step Bench α} {f : α → Step Bench β}
    {history : Bench → List Treatment} (first : Recounts m history)
    (rest : ∀ a, Recounts (f a) fun _ => []) : Recounts (m >>= f) history :=
  Logs.bind_silent (A := Accounts.reading) first rest

theorem Recounts.pure (a : α) : Recounts (Pure.pure a : Step Bench α) fun _ => [] :=
  Logs.pure (A := Accounts.reading) a

end Step

open Step (Logs Recounts historyEach)

/-! ## Histories of operations -/

namespace Session

/-- The history of one variant: it is treated, or refused. -/
def variantHistory (declaration : Declaration) (units : NameSet) (spliced : Bool)
    (v : Tree.Variant) (b : Bench) : List Treatment :=
  match (exec (declareVariant declaration units spliced v) b).1 with
  | .ok admission => [⟨variantEmission declaration v, units, admission⟩]
  | .error _ => []

/-- The history of a declaration. -/
def defineHistory (store : Store) (declaration : Declaration) (spliced : Bool) (b : Bench) :
    List Treatment :=
  match prepareAll store b.session.draft declaration with
  | .ok (body, guards, units) =>
    historyEach (declareVariant declaration units spliced)
      (variantHistory declaration units spliced)
      (Tree.expandDefaults declaration.name declaration.params guards body b.session.config.stem) b
  | .error _ => []

/-- The history of a statement. -/
def statementHistory (store : Store) (spliced : Bool) : Statement → Bench → List Treatment
  | .define declaration => defineHistory store declaration spliced
  | _ => fun _ => []

/-- The history of hooks of the base. -/
def spliceHistory (store : Store) (hooks : List Hook) (b : Bench) : List Treatment :=
  historyEach (fun hook : Hook => hook.forM (run store true))
    (fun hook => historyEach (run store true) (statementHistory store true) hook) hooks b

theorem declareVariant_recounts (declaration : Declaration) (units : NameSet) (spliced : Bool)
    {v : Tree.Variant} (proper : v.Proper) :
    Recounts (declareVariant declaration units spliced v)
      (variantHistory declaration units spliced v) := by
  intro b loaded
  unfold variantHistory
  rcases declareVariant_runs loaded declaration units spliced proper with
    ⟨error, failed, -⟩ | ⟨admission, b', done, runs⟩
  · rw [failed]
    exact ⟨[], .refl loaded, .nil⟩
  · rw [done]
    exact ⟨_, runs, by simp [Event.isOwn], rfl, by simp⟩

/-- A declaration that succeeds has treated the least variant at any rate. -/
theorem exists_treated {declaration : Declaration} {units : NameSet} {spliced : Bool}
    {variants : List Tree.Variant} {b b' : Bench} {admissions : List Admission}
    (done : exec (variants.mapM (declareVariant declaration units spliced)) b =
      (.ok admissions, b')) (some : variants ≠ []) :
    ∃ t ∈ historyEach (declareVariant declaration units spliced)
      (variantHistory declaration units spliced) variants b, t.units = units := by
  cases variants with
  | nil => exact absurd rfl some
  | cons v variants =>
    rw [List.mapM_cons, Step.exec_bind] at done
    unfold historyEach variantHistory
    cases first : exec (declareVariant declaration units spliced v) b with
    | mk result b₁ =>
      rw [first] at done
      cases result with
      | error error => cases done
      | ok admission => exact ⟨_, List.mem_append_left _ List.mem_cons_self, rfl⟩

theorem defineHistory_eq (store : Store) (declaration : Declaration) (spliced : Bool) :
    defineHistory store declaration spliced =
      declarationLog store declaration spliced fun units v =>
        variantHistory declaration units spliced v := by
  funext b
  unfold defineHistory
  simp only [Step.historyEach_eq]
  rfl

/-- **Declarations.** -/
theorem define_recounts (store : Store) (declaration : Declaration) (spliced : Bool) :
    Recounts (define store declaration spliced) (defineHistory store declaration spliced) := by
  rw [defineHistory_eq]
  refine define_logs (A := Accounts.reading) store declaration spliced
    (fun proper => declareVariant_recounts declaration _ spliced proper)
    fun {units variants admissions b b' events} some outcome accounts => ⟨?_, ?_, ?_⟩
  · exact List.forall_mem_append.2 ⟨accounts.own, by simp [Event.isOwn]⟩
  · rw [List.filterMap_append, accounts.treated]
    exact List.append_nil _
  · intro listed member
    rcases List.mem_append.1 member with member | member
    · exact accounts.required listed member
    · -- The requirement is that of the variants, of which there is one at least.
      obtain ⟨t, isTreated, same⟩ := exists_treated outcome some
      rw [Step.historyEach_eq] at isTreated
      cases List.mem_singleton.1 member
      exact ⟨t, isTreated, by rw [same]⟩

theorem grant_recounts (key : Key) : Recounts (grant key) fun _ => [] :=
  .of_performs (grant_performs key) fun _ same => same ▸ ⟨rfl, rfl, nofun⟩

theorem withhold_recounts (key : Key) : Recounts (withhold key) fun _ => [] :=
  .of_performs (withhold_performs key) fun _ same => same ▸ ⟨rfl, rfl, nofun⟩

/-- **Statements.** -/
theorem run_recounts (store : Store) (spliced : Bool) (statement : Statement) :
    Recounts (run store spliced statement) (statementHistory store spliced statement) := by
  cases statement with
  | define declaration =>
    refine (define_recounts store declaration spliced).bind_silent fun admissions => ?_
    split
    · exact .of_performs (grantRecorded_performs _ _ admissions)
        fun _ ⟨_, same⟩ => same ▸ ⟨rfl, rfl, nofun⟩
    · exact .pure _
  | grant key => exact grant_recounts key
  | withhold key => exact withhold_recounts key

/-- **Hooks.** -/
theorem splice_recounts (store : Store) (hooks : List Hook) :
    Recounts (splice store hooks) (spliceHistory store hooks) := by
  unfold spliceHistory
  simp only [Step.historyEach_eq]
  exact Logs.forM (A := Accounts.reading) fun _ _ => .forM fun statement _ =>
    run_recounts store true statement

end Session

/-! ## Histories of commands -/

/-- What a command makes a session treat. -/
def Command.history (store : Store) : Command → Bench → List Treatment
  | .define _ declaration => Session.defineHistory store declaration false
  | .run _ statement spliced => Session.statementHistory store spliced statement
  | _ => fun _ => []

theorem Command.work?_recounts {command : Command} {store : Store} {m : Step Bench Reply}
    (h : command.work? store = some m) : Recounts m (command.history store) := by
  cases command with
  | openRoot | openExtension | finish => cases h
  | define unit declaration =>
    cases h
    exact (Session.define_recounts store declaration false).bind_silent fun _ => .pure _
  | grant unit key =>
    cases h
    exact (Session.grant_recounts key).bind_silent fun _ => .pure _
  | withhold unit key =>
    cases h
    exact (Session.withhold_recounts key).bind_silent fun _ => .pure _
  | importRoutines unit source keys =>
    cases h
    have performs := Session.importRoutines_performs store source keys
    refine Recounts.bind_silent (.of_performs performs ?_) fun _ => .pure _
    rintro _ ⟨_, _, rfl⟩
    exact ⟨rfl, rfl, nofun⟩
  | setHooks unit pre post =>
    cases h
    refine Recounts.bind_silent (.of_performs (Session.setHooks_performs pre post) ?_)
      fun _ => .pure _
    rintro _ rfl
    exact ⟨rfl, rfl, nofun⟩
  | run unit statement spliced =>
    cases h
    exact (Session.run_recounts store spliced statement).bind_silent fun _ => .pure _

/-- Histories of commands are true. -/
theorem Command.keeps_history : Command.Keeps Accounts.reading Command.history where
  works := Command.work?_recounts
  idle {store command} silent b := by cases command <;> first | rfl | cases silent
  closing := .of_silent (by simp [Event.isOwn]) (by simp [Event.treatment?]) (by simp)
  completing := .of_silent (by simp [Event.isOwn]) (by simp [Event.treatment?]) (by simp)

namespace Workspace

variable {w : Workspace}

/-- What a command treats for a unit. -/
def commandHistory (unit : String) (w : Workspace) (command : Command) : List Treatment :=
  if command.unit = unit then
    match w.sessions.get? unit with
    | some s => command.history w.store (w.bench s)
    | none => []
  else []

/-- What commands treat for a unit, one after the other. -/
def history (unit : String) : Workspace → List Command → List Treatment
  | _, [] => []
  | w, command :: commands =>
    w.commandHistory unit command ++ history unit (w.after command) commands

/-- The history of a unit is a log. -/
theorem history_eq (unit : String) (w : Workspace) (commands : List Command) :
    w.history unit commands = w.logAll Command.history unit commands := by
  induction commands generalizing w with
  | nil => rfl
  | cons command commands ih =>
    have first : w.commandHistory unit command = w.logOf Command.history unit command := rfl
    rw [history, logAll, first, ih]

/-- **A run of commands.**  What it does to a session is accounted for by what it treats. -/
theorem Coherent.recounts_afterAll (h : w.Coherent) {unit : String} {s : Session} {image : Image}
    (session : w.sessions.get? unit = some s) (held : w.program.units.get? unit = some image)
    (commands : List Command) :
    ∃ s' image' events, (w.afterAll commands).sessions.get? unit = some s' ∧
      (w.afterAll commands).program.units.get? unit = some image' ∧
      Trace ⟨s, image⟩ events ⟨s', image'⟩ ∧ Accounts events (w.history unit commands) := by
  rw [history_eq]
  exact h.logs_afterAll Command.keeps_history session held commands

end Workspace

end Heredity
