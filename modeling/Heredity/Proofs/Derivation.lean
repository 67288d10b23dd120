import Heredity.Proofs.KeySets
import Heredity.Proofs.Withholding

/-!
# Where inherited records come from

Resolution makes the records of an extension from those of its base, once, when the extension is
opened.  What its session does after that, and what the hooks of the base do before, only takes
inherited records away, replaces them by declarations of the unit, or grants permission.  So every
record that is still inherited can be traced back to a record of the base.

* `Registry.HandsDown` — how a record of an extension comes from one of its base: it is a forwarder,
  or it is the copy.
* `Session.Extends` — all inherited records of a session come from a registry, and what that passes
  on is recorded or withheld.
* `Moves.session_extends` — one event keeps this; `extends_of_resolve` — it holds at the start.
* `Reachable.extends_base` — every session of a unit with a base extends the registry that the base
  has published; `Reachable.handed_down` says it of one record.

**Permission is left out.**  A grant changes nothing else of a record, so two records are compared as
they are but for the permission.
-/

namespace Heredity

/-- **How a record is handed down** from a base, under a name: `r` becomes `r'`, which may have been
granted since. -/
inductive Registry.HandsDown (config : Config) (base : Registry) (name : String)
    (r r' : RoutineRecord) : Prop where
  /-- The text calls what only the base has, and the routine forwards its arguments to the base. -/
  | delegated (dependent : Tree.routineCalls (base.triggers config) r.params r.guards r.body = true)
      (made : r' = { delegateRoutine config base name r with permitted := r'.permitted })
  /-- The text calls nothing of the kind, and the routine is copied. -/
  | copied (independent : Tree.routineCalls (base.triggers config) r.params r.guards r.body = false)
      (made : r' = { base.copied config r with permitted := r'.permitted })

namespace Registry.HandsDown

variable {config : Config} {base : Registry} {name : String} {r r' : RoutineRecord}

/-- Inheriting hands a record down. -/
theorem of_inheritRoutine {key : Key} {needs : List String}
    (h : inheritRoutine config base key r = .ok (r', needs)) :
    base.HandsDown config key.name r r' := by
  unfold inheritRoutine at h
  split at h
  · next dependent =>
    cases h
    exact .delegated dependent rfl
  · next independent =>
    obtain rfl := copyRoutine_eq_ok h
    exact .copied (by simpa using independent) rfl

/-- A grant leaves it open how a record was made. -/
theorem permit (h : base.HandsDown config name r r') :
    base.HandsDown config name r { r' with permitted := true } := by
  cases h with
  | delegated dependent made =>
    exact .delegated dependent (congrArg (fun x => { x with permitted := true }) made)
  | copied independent made =>
    exact .copied independent (congrArg (fun x => { x with permitted := true }) made)

end Registry.HandsDown

/-- A session extends a registry: what it inherits, it has from there. -/
structure Session.Extends (base : Registry) (s : Session) : Prop where
  /-- An inherited record was handed down. -/
  handedDown : ∀ {key r'}, s.draft.routines.get? key = some r' → r'.inherited = true →
    ∃ r, base.routines.get? key = some r ∧ base.withheld.contains key = false ∧
      base.HandsDown s.config key.name r r'
  /-- What the base passes on is recorded, unless the unit has withheld it. -/
  kept : ∀ {key}, base.routines.contains key = true → base.withheld.contains key = false →
    s.draft.routines.contains key = true ∨ s.draft.withheld.contains key = true

/-- A key that is recorded is recorded after a change of the key sets, or it is withheld. -/
theorem Draft.Shifts.kept {l : Ledger} {d d' : Draft} (h : Shifts l d d') {key : Key}
    (recorded : d.routines.contains key = true) :
    d'.routines.contains key = true ∨ d'.withheld.contains key = true := by
  cases h with
  | keep routines | hide writable unrecorded routines => exact .inl (routines ▸ recorded)
  | record writable notPrivate passedOn admitted routines | permit writable recorded' routines =>
    rw [routines, Table.contains_insert, recorded, Bool.or_true]
    exact .inl rfl
  | withhold writable routines privateKeys withheld =>
    rw [routines, withheld, Table.contains_erase, OrderedSet.contains_add, recorded]
    cases _ == key with
    | true => exact .inr rfl
    | false => exact .inl rfl

/-- **One event** leaves a session an extension of the same registry. -/
theorem Moves.session_extends {base : Registry} {w w' : Writing} {event : Event} (move : Moves w event w')
    (h : w.session.Extends base) : w'.session.Extends base where
  handedDown := by
    have config : w'.session.config = w.session.config := congrArg Ledger.config move.ledger_eq
    rw [config]
    refine fun {key r'} => move.records (Q := fun key r' => r'.inherited = true →
      ∃ r, base.routines.get? key = some r ∧ base.withheld.contains key = false ∧
        base.HandsDown w.session.config key.name r r') ?_ ?_ ?_ (fun _ _ => h.handedDown) key r'
    · -- What the unit declares itself is not inherited.
      exact fun e _ inherited => nomatch inherited
    · intro key r' before inherited
      obtain ⟨r, original, passedOn, handed⟩ := before inherited
      exact ⟨r, original, passedOn, handed.permit⟩
    · intro key key' r' agrees before inherited
      obtain ⟨r, original, passedOn, handed⟩ := before inherited
      rw [← Table.get?_congr _ agrees, ← Table.contains_congr _ agrees,
        ← (Key.beq_iff.1 agrees).1]
      exact ⟨r, original, passedOn, handed⟩
  kept := by
    intro key recorded passedOn
    rcases h.kept recorded passedOn with recorded' | isWithheld
    · exact move.shifts.kept recorded'
    · exact .inr (move.withheld_mono isWithheld)

/-- **A trace of events** leaves a session an extension of the same registry. -/
theorem Trace.session_extends {base : Registry} {w w' : Writing} {events : List Event}
    (trace : Trace w events w') (h : w.session.Extends base) : w'.session.Extends base :=
  trace.invariant (I := fun v => v.session.Extends base) (fun _ _ _ _ move => move.session_extends) h

/-- **The start.**  A session that has just been opened extends the registry that was resolved. -/
theorem extends_of_resolve {config : Config} {base : Registry} {fields : Value} {unit : String}
    {resolution : Resolution} (resolved : resolve base fields unit config = .ok resolution) :
    (Site.newSession config resolution.draft).Extends base where
  handedDown {key r'} recorded _ := by
    obtain ⟨r, needs, original, passedOn, inherits⟩ := (get?_inherited_iff resolved).1 recorded
    exact ⟨r, original, passedOn, .of_inheritRoutine inherits⟩
  kept {key} recorded passedOn := by
    obtain ⟨r, original⟩ := Table.contains_iff_exists_get?.1 recorded
    obtain ⟨r', needs, -, inherited⟩ := exists_inherited resolved original passedOn
    exact .inl (Table.contains_iff_exists_get?.2 ⟨r', inherited⟩)

namespace Workspace

variable {w : Workspace}

/-- A published registry is named after its unit. -/
theorem Coherent.published_unit (h : w.Coherent) {unit : String} {registry : Registry}
    (published : w.store.get? unit = some registry) : registry.unit = unit := by
  obtain ⟨s, session, -, rfl⟩ := h.published published
  exact (h.session session).1

/-- **Every session of a unit with a base** extends the registry that the base has published. -/
theorem Reachable.extends_base (h : w.Reachable) {unit base : String} {s : Session}
    (session : w.sessions.get? unit = some s) (isBase : s.draft.base = some base) :
    ∃ registry, w.store.get? base = some registry ∧ s.Extends registry := by
  induction h generalizing s with
  | empty => cases session
  | @after w command reachable ih =>
    have coherent := reachable.coherent
    cases before : w.sessions.get? unit with
    | some s₀ =>
      obtain ⟨-, image, held, -⟩ := coherent.session before
      obtain ⟨s', image', events, session', -, trace, -⟩ :=
        coherent.session_after before held command
      cases session.symm.trans session'
      have isBase₀ : s₀.draft.base = some base := trace.base_eq.symm.trans isBase
      obtain ⟨registry, published, extends₀⟩ := ih before isBase₀
      exact ⟨registry, coherent.store_after published, trace.session_extends extends₀⟩
    | none =>
      rcases opens_of_new session before with ⟨config, fields, rfl⟩ | ⟨config, base', fields, rfl⟩
      · obtain ⟨merged, -, isDraft⟩ := draft_of_new_root session before
        rw [isDraft] at isBase
        cases isBase
      · obtain ⟨-, image, held, -⟩ := (coherent.after _).session session
        obtain ⟨registry, resolution, pre, post, published, resolved, -, trace⟩ :=
          extension_of_new (P := fun _ event => event.isOwn = true)
            (fun _ hooks _ _ => Session.splice_performs w.store hooks) session held before
        -- The session has the base that it was opened with.
        obtain ⟨-, extended, -⟩ := draft_of_resolve resolved
        cases isBase.symm.trans (trace.base_eq.trans extended)
        refine ⟨registry, coherent.store_after ?_, trace.session_extends (extends_of_resolve resolved)⟩
        rw [coherent.published_unit published]
        exact published

end Workspace

/-- A unit without a base inherits nothing. -/
theorem Writing.Attained.native_of_root {w : Writing} (h : w.Attained)
    (root : w.draft.base = none) :
    ∀ key r, w.draft.routines.get? key = some r → r.inherited = false := by
  induction h with
  | root config unit fields => exact fun _ _ recorded => nomatch recorded
  | extension attained closed resolved ownPre ownPost trace =>
    obtain ⟨-, extended, -⟩ := draft_of_resolve resolved
    cases root.symm.trans (trace.base_eq.trans extended)
  | move attained own move ih =>
    exact move.records (Q := fun _ r => r.inherited = false) (fun _ _ => rfl) id (fun _ => id)
      (ih (move.base_eq.symm.trans root))

namespace Workspace

/-- **An inherited record was handed down** by the base of its unit, which has published the
original and does not withhold it. -/
theorem Reachable.handed_down {w : Workspace} (h : w.Reachable) {unit : String} {s : Session}
    {key : Key} {r' : RoutineRecord} (session : w.sessions.get? unit = some s)
    (recorded : s.draft.routines.get? key = some r') (inherited : r'.inherited = true) :
    ∃ base registry r, s.draft.base = some base ∧ w.store.get? base = some registry ∧
      registry.unit = base ∧ registry.routines.get? key = some r ∧
      registry.withheld.contains key = false ∧ registry.HandsDown s.config key.name r r' := by
  obtain ⟨-, image, -, attained⟩ := h.coherent.session session
  cases isBase : s.draft.base with
  | none => cases inherited.symm.trans (attained.native_of_root isBase key r' recorded)
  | some base =>
    obtain ⟨registry, published, extends'⟩ := h.extends_base session isBase
    obtain ⟨r, original, passedOn, handed⟩ := extends'.handedDown recorded inherited
    exact ⟨base, registry, r, rfl, published, h.coherent.published_unit published, original,
      passedOn, handed⟩

end Workspace

end Heredity
