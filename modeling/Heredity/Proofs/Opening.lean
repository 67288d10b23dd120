import Heredity.Proofs.Inheritance
import Heredity.Proofs.Workspaces

/-!
# Extensions of units without hooks

If a base has no hooks, opening an extension of it does nothing but put in place what is inherited.
This file says what is there then.

* `Registry.HookFree` — the base has no hooks.
* `Writing.Fresh` — the image is the table of the records, one emission for each of them.
* `Fresh.get?_iff` — what it holds at one key.
* `Fresh.exists_inherited` — what it holds at a key that the base passes on.
* `HookFree.exec_materialize` — putting in place what is inherited does not fail.
* `opened_extension` — the session and the image of an extension that has just been opened.
-/

namespace Heredity

open Step (exec)

/-- No hook is executed in the units that extend the one with this registry. -/
def Registry.HookFree (registry : Registry) : Prop :=
  registry.preHook = none ∧ registry.postHook = none

namespace Session

/-- **Putting in place what is inherited,** where no hook is executed, never fails. -/
theorem materialize_free {b : Bench} (loaded : b.Loaded) (store : Store)
    (emissions : EmissionList) (pre : emissions.preHooks = []) (post : emissions.postHooks = []) :
    ∃ b', exec (materialize store emissions) b = (.ok ⟨⟩, b') ∧
      b.Runs (emissions.routines.map .inherit ++ [.require emissions.requires]) b' := by
  obtain ⟨b₁, done, runs⟩ := emitAll_runs loaded emissions.routines
  obtain ⟨b', done', runs'⟩ := exec_require runs.loaded emissions.requires
  refine ⟨b', ?_, runs.trans runs'⟩
  unfold materialize
  rw [pre, post]
  show exec (emissions.routines.forM emitInherited >>= _) b = _
  rw [Step.exec_bind_of_ok done, Step.exec_get_bind, Step.exec_bind_of_ok done']
  rfl

end Session

/-! ## What is in place then -/

/-- The image holds the emission of every record, in their order, and nothing else; what the session
has is what it was opened with. -/
structure Writing.Fresh (config : Config) (d : Draft) (w : Writing) : Prop where
  /-- The session is new. -/
  session : w.session = Site.newSession config d
  /-- The image has one emission for each record. -/
  routines : w.image.routines.entries =
    d.routines.entries.map fun e => (e.1, Emission.ofRecord e.1 e.2)
  /-- The image is not complete, so it withholds nothing yet. -/
  withheld : w.image.withheld = ∅

namespace Writing

variable {w w' : Writing}

/-- Inherited routines that replace no record of the unit's own enter the image in order. -/
theorem trace_inherit_eq {es : List Emission} (h : Trace w (es.map .inherit) w')
    (free : ∀ r key, w.draft.routines.get? key = some r → r.inherited = true) :
    w' = { w with image := { w.image with
      routines := w.image.routines.insertAll (es.map fun e => (e.key, e)) } } := by
  induction es generalizing w with
  | nil =>
    cases h
    rfl
  | cons e es ih =>
    cases h with
    | cons first rest =>
      cases first with
      | skip recorded native =>
        have inherited := free _ _ recorded
        rw [RoutineRecord.inherited, native] at inherited
        cases inherited
      | inherit => exact ih rest free

/-- A new extension is fresh when what it inherits is in place. -/
theorem Fresh.of_trace {config : Config} {base : Registry} {fields : Value} {unit : String}
    {resolution : Resolution} (h : resolve base fields unit config = .ok resolution)
    (trace : Trace (.opened config resolution.draft)
      (resolution.emissions.routines.map .inherit ++ [.require resolution.emissions.requires]) w) :
    w.Fresh config resolution.draft := by
  obtain ⟨w₁, inheriting, requiring⟩ := trace.append_inv
  have inherited : ∀ r key, resolution.draft.routines.get? key = some r → r.inherited = true := by
    intro r key recorded
    obtain ⟨_, _, -, -, becomes⟩ := (get?_inherited_iff h).1 recorded
    exact inherited_of_inheritRoutine becomes
  obtain rfl := trace_inherit_eq inheriting inherited
  have keyed : (resolution.emissions.routines.map fun e => (e.key, e)) =
      resolution.draft.routines.entries.map fun e => (e.1, Emission.ofRecord e.1 e.2) := by
    rw [emissions_eq h, List.map_map]
    rfl
  cases requiring with
  | cons first rest =>
    cases rest
    cases first with
    | require =>
      refine ⟨rfl, ?_, rfl⟩
      show ((∅ : Table Key Emission).insertAll _).entries = _
      rw [keyed]
      refine Table.entries_ofList ?_
      rw [List.map_map]
      exact resolution.draft.routines.distinct

/-- **The image at one key.**  It holds the emission of the record there, at the key as the base
spells it. -/
theorem Fresh.get?_iff {config : Config} {d : Draft} (h : w.Fresh config d) {key : Key}
    {e : Emission} :
    w.image.routines.get? key = some e ↔
      ∃ key' r, (key', r) ∈ d.routines.entries ∧ (key' == key) = true ∧
        e = Emission.ofRecord key' r := by
  rw [Table.get?_eq_some_iff, h.routines]
  constructor
  · rintro ⟨key', member, agrees⟩
    obtain ⟨⟨key, r⟩, stored, same⟩ := List.mem_map.1 member
    cases same
    exact ⟨_, r, stored, agrees, rfl⟩
  · rintro ⟨key', r, stored, agrees, rfl⟩
    exact ⟨key', List.mem_map.2 ⟨(key', r), stored, rfl⟩, agrees⟩

/-- **What is passed on** is recorded as it is inherited, and the image holds its emission. -/
theorem Fresh.exists_inherited {config : Config} {base : Registry} {fields : Value} {unit : String}
    {resolution : Resolution} (h : w.Fresh config resolution.draft)
    (resolved : resolve base fields unit config = .ok resolution) {key : Key} {r : RoutineRecord}
    (recorded : base.routines.get? key = some r) (passedOn : base.withheld.contains key = false) :
    ∃ key' r' needs, (key' == key) = true ∧
      inheritRoutine config base key r = .ok (r', needs) ∧
      w.draft.routines.get? key = some r' ∧
      w.image.routines.get? key = some (Emission.ofRecord key' r') := by
  obtain ⟨r', needs, becomes, recorded'⟩ := Heredity.exists_inherited resolved recorded passedOn
  obtain ⟨key', stored, agrees⟩ := Table.get?_eq_some_iff.1 recorded'
  have draft : w.draft = resolution.draft := congrArg Session.draft h.session
  exact ⟨key', r', needs, agrees, becomes, by rw [draft, recorded'],
    h.get?_iff.2 ⟨key', r', stored, agrees, rfl⟩⟩

end Writing

/-- **What an extension inherits** is put in place without fail, if its base has no hooks: the
session is new then, and the image fresh. -/
theorem Registry.HookFree.exec_materialize {registry : Registry} {config : Config} {fields : Value}
    {unit : String} {resolution : Resolution} (free : registry.HookFree)
    (resolved : resolve registry fields unit config = .ok resolution) (site : Site) :
    ∃ b image, exec (Session.materialize site.store resolution.emissions)
        (site.openingBench config resolution.draft) = (.ok ⟨⟩, b) ∧
      b.program.units.get? unit = some image ∧
        Writing.Fresh config resolution.draft ⟨b.session, image⟩ := by
  obtain ⟨merged, routines, -, -, -, emissions⟩ := resolve_eq_ok resolved
  have opening := site.openingBench_shows config resolution.draft
  obtain ⟨b, materialized, w, ⟨s, image⟩, shows₁, ⟨rfl, held⟩, trace, -⟩ :=
    Session.materialize_free opening.loaded site.store resolution.emissions
      (by rw [emissions, free.1]; rfl) (by rw [emissions, free.2]; rfl)
  obtain rfl := opening.unique shows₁
  have named : b.unit = unit := trace.unit_eq.trans (draft_of_resolve resolved).1
  exact ⟨b, image, materialized, named ▸ held, .of_trace resolved trace⟩

/-! ## Opening by a command -/

namespace Workspace

variable {w : Workspace}

/-- An extension that is opened was not loaded before, and its base was published. -/
theorem opening_of_outcome {config : Config} {unit base : String} {fields : Value} {reply : Reply}
    (ok : w.outcome (.openExtension config unit base fields) = .ok reply) :
    w.program.contains unit = false ∧ ∃ registry, w.store.get? base = some registry := by
  have done : (exec (opening unit (Site.openExtension config unit base fields)) w).1 = .ok reply :=
    ok
  rw [exec_opening] at done
  rcases Site.exec_openExtension_cases w.toSite config unit base fields with
    ⟨error, failed, -⟩ | ⟨registry, resolution, result, b, published, resolved, fresh, -, -⟩
  · rw [failed] at done
    cases done
  · obtain ⟨rfl, -⟩ := draft_of_resolve resolved
    exact ⟨fresh, registry, published⟩

/-- **What opening leaves behind.**  An extension of a unit without hooks has a new session and a
fresh image, and no other unit has changed. -/
theorem opened_extension {config : Config} {unit base : String} {fields : Value} {reply : Reply}
    {registry : Registry} (published : w.store.get? base = some registry)
    (free : registry.HookFree)
    (ok : w.outcome (.openExtension config unit base fields) = .ok reply) :
    ∃ resolution s image, resolve registry fields unit config = .ok resolution ∧
      (w.after (.openExtension config unit base fields)).sessions.get? unit = some s ∧
      (w.after (.openExtension config unit base fields)).program.units.get? unit = some image ∧
      Writing.Fresh config resolution.draft ⟨s, image⟩ := by
  have done : (exec (opening unit (Site.openExtension config unit base fields)) w).1 = .ok reply :=
    ok
  have after : w.after (.openExtension config unit base fields) =
      (exec (opening unit (Site.openExtension config unit base fields)) w).2 := rfl
  rw [after]
  rw [exec_opening] at done ⊢
  rcases Site.exec_openExtension_cases w.toSite config unit base fields with
    ⟨error, failed, -⟩ | ⟨registry', resolution, result, b, published', resolved, -, put, opened⟩
  · rw [failed] at done
    cases done
  · cases published'.symm.trans published
    obtain ⟨b', image, materialized, held, fresh⟩ := free.exec_materialize resolved w.toSite
    cases put.symm.trans materialized
    rw [opened]
    refine ⟨resolution, b.session, image, resolved, ?_, held, fresh⟩
    exact (get?_sessions_insert _ _ _ _).trans (if_pos rfl)

end Workspace

end Heredity
