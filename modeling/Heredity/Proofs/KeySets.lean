import Mathlib.Logic.Relation
import Heredity.Proofs.Agreement
import Heredity.Proofs.Histories

/-!
# The three key sets of a draft

A draft holds the keys that it records, those of its private routines, and those that it withholds.
The sets are written by resolution, by declarations, by withholding and by the hooks of a base, each
under a check of its own; together the checks keep recorded keys apart from the others.

* `Draft.Apart` — no recorded key is withheld or private.
* `Draft.Shifts` — the ways in which one event changes the three sets, with what the ledger checks.
* `Moves.shifts`, `Trace.shifts` — events change them in no other way.
* `Draft.Shifts.apart` — one change keeps the sets apart; `Writing.Attained.apart` — so they are
  apart in every unit in writing.
* `Reachable.key_sets_apart` — every session of every workspace, and every opening that a hook
  breaks off.

**Withheld and private keys may coincide.**  A unit may withhold a routine and declare a private one
at its key, or declare it again for itself; neither records anything.  So the invariant says nothing
about these two sets together.
-/

namespace Heredity

open Step (exec)

namespace Draft

/-- No recorded key is withheld or private. -/
structure Apart (d : Draft) : Prop where
  /-- What is withheld is not recorded. -/
  withheld : ∀ {key}, d.withheld.contains key = true → d.routines.contains key = false
  /-- What is private is not recorded. -/
  hidden : ∀ {key}, d.privateKeys.contains key = true → d.routines.contains key = false

/-- **One change of the key sets.**  A draft that is closed keeps them; an open one changes one set
at one key, or two of them by withholding. -/
inductive Shifts (l : Ledger) (d : Draft) : Draft → Prop where
  /-- All three sets stay. -/
  | keep {d' : Draft} (routines : d'.routines = d.routines)
      (privateKeys : d'.privateKeys = d.privateKeys) (withheld : d'.withheld = d.withheld) :
      Shifts l d d'
  /-- A key is recorded that the ledger admits, and that is neither private nor withheld. -/
  | record {d' : Draft} {key : Key} {r : RoutineRecord} {admission : Admission}
      (writable : d.closed = false) (notPrivate : d.privateKeys.contains key = false)
      (passedOn : d.withheld.contains key = false) (admitted : l.Admits d key admission)
      (routines : d'.routines = d.routines.insert key r)
      (privateKeys : d'.privateKeys = d.privateKeys) (withheld : d'.withheld = d.withheld) :
      Shifts l d d'
  /-- What is recorded at a key may be replaced by descendants from now on. -/
  | permit {d' : Draft} {key : Key} {r : RoutineRecord} (writable : d.closed = false)
      (recorded : d.routines.get? key = some r)
      (routines : d'.routines = d.routines.insert key { r with permitted := true })
      (privateKeys : d'.privateKeys = d.privateKeys) (withheld : d'.withheld = d.withheld) :
      Shifts l d d'
  /-- A key becomes private that is not recorded. -/
  | hide {d' : Draft} {key : Key} (writable : d.closed = false)
      (unrecorded : d.routines.contains key = false) (routines : d'.routines = d.routines)
      (privateKeys : d'.privateKeys = d.privateKeys.add key) (withheld : d'.withheld = d.withheld) :
      Shifts l d d'
  /-- A key is withheld, and what was recorded there is given up. -/
  | withhold {d' : Draft} {key : Key} (writable : d.closed = false)
      (routines : d'.routines = d.routines.erase key) (privateKeys : d'.privateKeys = d.privateKeys)
      (withheld : d'.withheld = d.withheld.add key) :
      Shifts l d d'

namespace Shifts

variable {l : Ledger} {d d' : Draft}

/-- What is withheld stays withheld. -/
theorem withheld_mono (h : Shifts l d d') {key : Key} (isWithheld : d.withheld.contains key = true) :
    d'.withheld.contains key = true := by
  cases h with
  | withhold writable routines privateKeys withheld =>
    rw [withheld, OrderedSet.contains_add, isWithheld, Bool.or_true]
  | keep routines privateKeys withheld
  | record writable notPrivate passedOn admitted routines privateKeys withheld
  | permit writable recorded routines privateKeys withheld
  | hide writable unrecorded routines privateKeys withheld => rw [withheld, isWithheld]

/-- What is private stays private. -/
theorem private_mono (h : Shifts l d d') {key : Key}
    (isPrivate : d.privateKeys.contains key = true) : d'.privateKeys.contains key = true := by
  cases h with
  | hide writable unrecorded routines privateKeys withheld =>
    rw [privateKeys, OrderedSet.contains_add, isPrivate, Bool.or_true]
  | keep routines privateKeys withheld
  | record writable notPrivate passedOn admitted routines privateKeys withheld
  | permit writable recorded routines privateKeys withheld
  | withhold writable routines privateKeys withheld => rw [privateKeys, isPrivate]

/-- A key that is recorded after a change was recorded before it, or it is one that was neither
private nor withheld. -/
theorem recorded_before (h : Shifts l d d') {key : Key}
    (recorded : d'.routines.contains key = true) :
    d.routines.contains key = true ∨
      (d.privateKeys.contains key = false ∧ d.withheld.contains key = false) := by
  cases h with
  | keep routines | hide writable unrecorded routines => exact .inl (routines ▸ recorded)
  | record writable notPrivate passedOn admitted routines =>
    rw [routines, Table.contains_insert, Bool.or_eq_true] at recorded
    refine recorded.symm.imp id fun agrees => ?_
    rw [← Table.contains_congr _ agrees, ← Table.contains_congr _ agrees]
    exact ⟨notPrivate, passedOn⟩
  | permit writable recorded' routines =>
    rw [routines, Table.contains_insert, Bool.or_eq_true] at recorded
    refine .inl (recorded.elim (fun agrees => ?_) id)
    rw [← Table.contains_congr _ agrees]
    exact Table.contains_iff_exists_get?.2 ⟨_, recorded'⟩
  | withhold writable routines =>
    rw [routines, Table.contains_erase, Bool.and_eq_true] at recorded
    exact .inl recorded.2

/-- A key that is withheld after a change was withheld before it, or it is not recorded any more: only
withholding adds a key, and it gives up what was recorded there. -/
theorem withheld_before (h : Shifts l d d') {key : Key}
    (isWithheld : d'.withheld.contains key = true) :
    d.withheld.contains key = true ∨ d'.routines.contains key = false := by
  cases h with
  | withhold writable routines privateKeys withheld =>
    rw [withheld, OrderedSet.contains_add, Bool.or_eq_true] at isWithheld
    refine isWithheld.symm.imp id fun agrees => ?_
    rw [routines, Table.contains_erase, agrees]
    rfl
  | keep routines privateKeys withheld
  | record writable notPrivate passedOn admitted routines privateKeys withheld
  | permit writable recorded routines privateKeys withheld
  | hide writable unrecorded routines privateKeys withheld => exact .inl (withheld ▸ isWithheld)

/-- A key that is private after a change was private before it, or it is not recorded: only hiding
adds a key, and not one that is recorded. -/
theorem private_before (h : Shifts l d d') {key : Key}
    (isPrivate : d'.privateKeys.contains key = true) :
    d.privateKeys.contains key = true ∨ d'.routines.contains key = false := by
  cases h with
  | hide writable unrecorded routines privateKeys withheld =>
    rw [privateKeys, OrderedSet.contains_add, Bool.or_eq_true] at isPrivate
    refine isPrivate.symm.imp id fun agrees => ?_
    rw [routines, ← Table.contains_congr _ agrees]
    exact unrecorded
  | keep routines privateKeys withheld
  | record writable notPrivate passedOn admitted routines privateKeys withheld
  | permit writable recorded routines privateKeys withheld
  | withhold writable routines privateKeys withheld => exact .inl (privateKeys ▸ isPrivate)

/-- **One change** keeps the sets apart. -/
theorem apart (h : Shifts l d d') (apart : d.Apart) : d'.Apart where
  withheld {key} isWithheld := by
    rcases h.withheld_before isWithheld with before | unrecorded
    · rw [Bool.eq_false_iff]
      intro recorded
      rcases h.recorded_before recorded with recorded | ⟨-, passedOn⟩
      · exact Bool.false_ne_true ((apart.withheld before).symm.trans recorded)
      · exact Bool.false_ne_true (passedOn.symm.trans before)
    · exact unrecorded
  hidden {key} isPrivate := by
    rcases h.private_before isPrivate with before | unrecorded
    · rw [Bool.eq_false_iff]
      intro recorded
      rcases h.recorded_before recorded with recorded | ⟨notPrivate, -⟩
      · exact Bool.false_ne_true ((apart.hidden before).symm.trans recorded)
      · exact Bool.false_ne_true (notPrivate.symm.trans before)
    · exact unrecorded

end Shifts

variable {l : Ledger} {d d' : Draft}

/-- **A run of changes** keeps the sets apart. -/
theorem Apart.shifts (apart : d.Apart) (run : Relation.ReflTransGen (Shifts l) d d') : d'.Apart := by
  induction run with
  | refl => exact apart
  | tail _ last ih => exact last.apart ih

/-- A key that is withheld or private is not recorded after any run of changes. -/
theorem Apart.unrecorded_after (apart : d.Apart) (run : Relation.ReflTransGen (Shifts l) d d')
    {key : Key}
    (barred : d.withheld.contains key = true ∨ d.privateKeys.contains key = true) :
    d'.routines.contains key = false := by
  have stays : d'.withheld.contains key = true ∨ d'.privateKeys.contains key = true := by
    induction run with
    | refl => exact barred
    | tail _ last ih => exact ih.imp last.withheld_mono last.private_mono
  exact stays.elim (apart.shifts run).withheld (apart.shifts run).hidden

/-- Closing finds nothing withheld among the records. -/
theorem Apart.recordsWithheld_eq_false (apart : d.Apart) : d.recordsWithheld = false := by
  refine List.any_eq_false.2 fun key member => ?_
  have isWithheld : d.withheld.contains key = true :=
    (Table.contains_iff_exists_key _ key).2 ⟨key, member, BEq.rfl⟩
  rw [apart.withheld isWithheld]
  exact Bool.false_ne_true

end Draft

/-! ## Events and operations -/

/-- **One event** changes the key sets in one of these ways, or not at all. -/
theorem Moves.shifts {w w' : Writing} {event : Event} (move : Moves w event w') :
    Draft.Shifts w.ledger w.draft w'.draft := by
  cases move with
  | declarePrivate made isPrivate writable unrecorded => exact .hide writable unrecorded rfl rfl rfl
  | declareRecorded made isPublic writable notPrivate passedOn admitted =>
    exact .record writable notPrivate passedOn admitted rfl rfl rfl
  | grant writable recorded => exact .permit writable recorded rfl rfl rfl
  | withhold writable => exact .withhold writable rfl rfl rfl
  | declareLocal | declareInert | importKey | setHooks | require | skip | inherit | close
  | complete => exact .keep rfl rfl rfl

/-- **A trace of events** is a run of such changes, under the ledger of the session. -/
theorem Trace.shifts {w w' : Writing} {events : List Event} (trace : Trace w events w') :
    Relation.ReflTransGen (Draft.Shifts w.ledger) w.draft w'.draft := by
  induction trace with
  | nil => exact .refl
  | cons first _ ih =>
    rw [first.ledger_eq] at ih
    exact ih.head first.shifts

/-- What a session works at changes its key sets in these ways only. -/
theorem Bench.Runs.shifts {b b' : Bench} {events : List Event} (runs : b.Runs events b') :
    Relation.ReflTransGen (Draft.Shifts b.session.ledger) b.session.draft b'.session.draft := by
  obtain ⟨w, w', ⟨session, -⟩, ⟨session', -⟩, trace, -⟩ := runs
  rw [session, session']
  exact trace.shifts

/-- **The start.**  What an extension records is not withheld, and it has no private routines. -/
theorem apart_of_resolve {config : Config} {base : Registry} {fields : Value} {unit : String}
    {resolution : Resolution} (h : resolve base fields unit config = .ok resolution) :
    resolution.draft.Apart where
  withheld := (Writing.Agrees.opened h).apart
  hidden isPrivate := by
    obtain ⟨-, -, noPrivate, -⟩ := draft_of_resolve h
    rw [noPrivate] at isPrivate
    cases isPrivate

/-- The key sets of every unit in writing are apart. -/
theorem Writing.Attained.apart {w : Writing} (h : w.Attained) : w.draft.Apart := by
  induction h with
  | root config unit fields =>
    exact ⟨fun isWithheld => (nomatch isWithheld), fun isPrivate => (nomatch isPrivate)⟩
  | extension attained closed resolved ownPre ownPost trace =>
    exact (apart_of_resolve resolved).shifts trace.shifts
  | move attained own move apart => exact move.shifts.apart apart

namespace Session

/-- Closing a session whose key sets are apart does not fail for a record that is withheld. -/
theorem close_ne_withheldRecorded {b : Bench} (loaded : b.Loaded) (apart : b.session.draft.Apart) :
    (exec close b).1 ≠ .error .withheldRecorded := by
  intro failed
  unfold close at failed
  rw [Step.exec_get_bind] at failed
  obtain ⟨image, held⟩ := loaded
  by_cases closed : b.session.draft.closed = true
  · rw [Draft.close, Draft.ensureOpen_of_closed closed] at failed
    cases failed
  · rw [Bool.not_eq_true] at closed
    have sealed : b.session.draft.close =
        .ok (b.session.draft.toRegistry, { b.session.draft with closed := true }) := by
      rw [Draft.close, Draft.ensureOpen_of_open closed]
      simp only [bind, Except.bind, apart.recordsWithheld_eq_false]
      rfl
    rw [sealed, Step.exec_lift_ok_bind, Step.exec_set_bind, Step.exec_bind,
      Bench.exec_updateProgram] at failed
    rcases Program.closeUnit_cases (p := b.program) b.session.draft.toRegistry held with
      ⟨-, refused⟩ | completed
    · rw [Bench.program_withDraft, refused] at failed
      cases failed
    · rw [Bench.program_withDraft, completed] at failed
      cases failed

end Session

/-- Publishing fails for other reasons. -/
theorem Site.publish_ne_withheldRecorded (registry : Registry) (site : Site) :
    (exec (Site.publish registry) site).1 ≠ .error .withheldRecorded := by
  unfold Site.publish
  rw [Step.exec_get_bind, Store.publish, if_neg (by simp)]
  intro failed
  split at failed
  · cases failed
  · cases failed

namespace Workspace

variable {w : Workspace}

/-- Finishing does not fail for a record that is withheld, whether there is a session or not. -/
theorem Coherent.finish_ne_withheldRecorded (h : w.Coherent) (unit : String) :
    w.outcome (.finish unit) ≠ .error .withheldRecorded := by
  show (exec (perform (.finish unit)) w).1 ≠ _
  cases session : w.sessions.get? unit with
  | none =>
    intro failed
    rw [exec_finish_of_missing session] at failed
    cases failed
  | some s =>
    obtain ⟨-, image, held, attained⟩ := h.session session
    have sealing := Session.close_ne_withheldRecorded (h.loaded session) attained.apart
    rw [exec_perform_finish session]
    split
    · next closing =>
      rw [closing] at sealing
      exact fun failed => sealing (by cases failed; rfl)
    · next registry b closing =>
      intro failed
      have refused : (exec (Site.publish registry) (w.withBench unit b).toSite).1 =
          .error .withheldRecorded := by
        cases published : exec (Site.publish registry) (w.withBench unit b).toSite with
        | mk result site =>
          rw [published] at failed
          cases result with
          | error error =>
            cases failed
            rfl
          | ok registry => cases failed
      exact Site.publish_ne_withheldRecorded registry _ refused

/-- **The key sets stay apart.**  In every workspace that commands lead to, failing ones included, no
key that a session records is withheld or private there, so closing never finds a withheld record.
Whatever commands follow, the three sets change in the ways of `Draft.Shifts` only, and a key that is
withheld or private is never recorded again.  The same holds while an extension is opened: of the
draft that resolution makes, after each statement of a hook, and of what the opening leaves behind,
even if a hook breaks it off. -/
theorem Reachable.key_sets_apart (h : w.Reachable) :
    (∀ unit s, w.sessions.get? unit = some s →
      s.draft.Apart ∧ s.draft.recordsWithheld = false ∧
        ∀ commands, ∃ s', (w.afterAll commands).sessions.get? unit = some s' ∧ s'.draft.Apart ∧
          Relation.ReflTransGen (Draft.Shifts s.ledger) s.draft s'.draft ∧
          ∀ key, s.draft.withheld.contains key = true ∨ s.draft.privateKeys.contains key = true →
            s'.draft.routines.contains key = false) ∧
      (∀ unit, w.outcome (.finish unit) ≠ .error .withheldRecorded) ∧
      (∀ config unit base fields registry resolution, w.store.get? base = some registry →
        resolve registry fields unit config = .ok resolution →
        let opening := w.toSite.openingBench config resolution.draft
        let left := (exec (Session.materialize w.store resolution.emissions) opening).2
        resolution.draft.Apart ∧ left.session.draft.Apart ∧
          Relation.ReflTransGen (Draft.Shifts opening.session.ledger) resolution.draft
            left.session.draft) ∧
      ∀ (b : Bench) store spliced statement, b.Loaded → b.session.draft.Apart →
        let left := (exec (Session.run store spliced statement) b).2
        left.session.draft.Apart ∧
          Relation.ReflTransGen (Draft.Shifts b.session.ledger) b.session.draft
            left.session.draft := by
  refine ⟨fun unit s session => ?_, h.coherent.finish_ne_withheldRecorded, ?_, ?_⟩
  · obtain ⟨-, image, held, attained⟩ := h.coherent.session session
    refine ⟨attained.apart, attained.apart.recordsWithheld_eq_false, fun commands => ?_⟩
    obtain ⟨s', image', events, session', -, trace, -⟩ :=
      h.coherent.recounts_afterAll session held commands
    exact ⟨s', session', attained.apart.shifts trace.shifts, trace.shifts,
      fun key => attained.apart.unrecorded_after trace.shifts⟩
  · intro config unit base fields registry resolution _ resolved opening left
    have apart := apart_of_resolve resolved
    have runs : Relation.ReflTransGen (Draft.Shifts opening.session.ledger) resolution.draft
        left.session.draft := by
      have loaded := (w.toSite.openingBench_shows config resolution.draft).loaded
      obtain ⟨pre, post, -, -, ⟨error, b, failed, events, runs⟩ | ⟨b, done, runs⟩⟩ :=
        Session.materialize_performs loaded w.store resolution.emissions
          (Session.splice_performs _ _) (Session.splice_performs _ _)
      · rw [show left = b from congrArg Prod.snd failed]
        exact runs.shifts
      · rw [show left = b from congrArg Prod.snd done]
        exact runs.shifts
    exact ⟨apart, apart.shifts runs, runs⟩
  · intro b store spliced statement loaded apart left
    obtain ⟨events, runs, -⟩ := Session.run_performs store spliced statement b loaded
    exact ⟨apart.shifts runs.shifts, runs.shifts⟩

/-- A private declaration with an optional parameter.  Where `greet` is recorded with one parameter,
it is refused after its variant without parameters has become private. -/
def halfPrivate : Declaration :=
  ⟨"greet", [.optional (.binding "n") (.literal .null)], .var "n", [], true, false⟩

/-- The commands by which a unit withholds a routine and, after that, sets a hook that withholds
another key and then fails half-way. -/
def keySetCommands : List Command :=
  [.openRoot {} "base" (.list []),
    .define "base" ⟨"greet", [.binding "n"], .var "n", [], false, true⟩,
    .define "base" ⟨"old", [], .literal .null, [], false, false⟩,
    .withhold "base" (.ofCount "old" 0),
    .setHooks "base" none (some [.withhold (.ofCount "new" 0), .define halfPrivate]),
    .finish "base"]

/-- Declarations of which the first is refused half-way and the second is at a withheld key. -/
def barredCommands : List Command :=
  [.define "base" halfPrivate, .define "base" ⟨"old", [], .literal .null, [], false, true⟩]

/-- The session of the base stays in order when a declaration is refused half-way and the withheld
routine is declared again; so does what is left of an extension that the hook breaks off. -/
theorem key_sets_apart_of_failures :
    (∃ s, ((afterAll ∅ (keySetCommands.take 4)).afterAll barredCommands).sessions.get? "base" =
          some s ∧
        s.draft.privateKeys.contains (.ofCount "greet" 0) = true ∧
        s.draft.routines.contains (.ofCount "old" 0) = false ∧ s.draft.Apart) ∧
      (afterAll ∅ keySetCommands).outcome (.openExtension {} "child" "base" (.list [])) =
        .error (.publicAlready "child" (.ofCount "greet" 1)) ∧
      ∃ registry resolution, (afterAll ∅ keySetCommands).store.get? "base" = some registry ∧
        resolve registry (.list []) "child" {} = .ok resolution ∧
        (exec (Session.materialize (afterAll ∅ keySetCommands).store resolution.emissions)
          ((afterAll ∅ keySetCommands).toSite.openingBench {}
            resolution.draft)).2.session.draft.Apart := by
  have evaluated : (((afterAll ∅ (keySetCommands.take 4)).sessions.get? "base").map fun s =>
        s.draft.withheld.contains (.ofCount "old" 0)) = some true ∧
      ((((afterAll ∅ (keySetCommands.take 4)).afterAll barredCommands).sessions.get?
        "base").map fun s => s.draft.privateKeys.contains (.ofCount "greet" 0)) = some true ∧
      (((afterAll ∅ keySetCommands).store.get? "base").map fun registry =>
        (resolve registry (.list []) "child" {}).toBool) = some true ∧
      (afterAll ∅ keySetCommands).outcome (.openExtension {} "child" "base" (.list [])) =
        .error (.publicAlready "child" (.ofCount "greet" 1)) := by
    cbv
  obtain ⟨opened, isPrivate, resolves, refused⟩ := evaluated
  refine ⟨?_, refused, ?_⟩
  · obtain ⟨s, session, isWithheld⟩ := Option.map_eq_some_iff.1 opened
    obtain ⟨kept, -⟩ := Reachable.key_sets_apart (Reachable.empty.afterAll (keySetCommands.take 4))
    obtain ⟨-, -, later⟩ := kept "base" s session
    obtain ⟨s', session', apart, -, barred⟩ := later barredCommands
    rw [session'] at isPrivate
    exact ⟨s', session', Option.some.inj isPrivate, barred _ (.inl isWithheld), apart⟩
  · obtain ⟨registry, published, isOk⟩ := Option.map_eq_some_iff.1 resolves
    obtain ⟨-, -, openings, -⟩ :=
      Reachable.key_sets_apart (Reachable.empty.afterAll keySetCommands)
    cases resolved : resolve registry (.list []) "child" {} with
    | error error =>
      rw [resolved] at isOk
      cases isOk
    | ok resolution =>
      obtain ⟨-, apart, -⟩ := openings {} "child" "base" (.list []) registry resolution published
        resolved
      exact ⟨registry, resolution, published, resolved, apart⟩

end Workspace

end Heredity
