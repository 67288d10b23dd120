import Mathlib
import Heredity.Proofs.Chains
import Heredity.Proofs.Naming
import Heredity.Proofs.Withholding

/-!
# What an extension requires

When a unit is opened as an extension, the program is told which units must be loaded wherever its
inherited routines are.  This file proves that no unit is missing from that list, whichever routine
calls it and however deep in its text.

* `Registry.TracksGuards` — the units that guards name are among the dependencies.
* `Event.Truthful` — a declaration is treated with the units that its guards name; everything that
  sessions do is.
* `Workspace.TracksGuards` — so every session tracks its guards, whatever commands have led to it.
* `contains_dependencies_iff` — what an extension depends on; `within_of_resolve_tracks` — what its
  routines name is among that.
* `Reachable.requires_complete` — the requirements of a resolution.

**Guards need an invariant, bodies do not.**  Copying a routine collects the units that the copy
names, and the body of a forwarder names the base.  But a forwarder keeps guards of the base as they
are, and for these nothing is collected: that the base depends on what they name must be known
before.  Of bodies this would not even be true, since a fallback value is recorded as it was
written.
-/

namespace Heredity

open Step (exec)

/-! ## Tracking the units of guards -/

/-- A unit is the one that is registered, or one of its dependencies. -/
def Registry.Tracked (registry : Registry) (u : String) : Prop :=
  u = registry.unit ∨ registry.dependencies.contains u = true

/-- The guards of a registry name units that it tracks. -/
def Registry.TracksGuards (registry : Registry) : Prop :=
  ∀ key r, registry.routines.get? key = some r → ∀ guard ∈ r.guards, guard.Within registry.Tracked

/-- A declaration is treated with the units that its guards name. -/
def Event.Truthful : Event → Prop
  | .declare e units _ => ∀ guard ∈ e.guards, guard.Within fun u => units.contains u = true
  | _ => True

theorem Event.truthful_of_silent {event : Event} (silent : event.isDeclaration = false) :
    event.Truthful := by
  cases event with
  | declare => cases silent
  | _ => trivial

/-- **One event** that is truthful keeps the guards tracked. -/
theorem Moves.tracksGuards {w w' : Writing} {event : Event} (move : Moves w event w')
    (truthful : event.Truthful) (h : w.draft.toRegistry.TracksGuards) :
    w'.draft.toRegistry.TracksGuards := by
  cases move with
  | @declareRecorded e units admission made isPublic writable notPrivate passedOn admitted =>
    -- The draft depends on what it did before, and on the units of the declaration.
    have contains : ∀ u, (w.draft.recorded e units).dependencies.contains u =
        ((units.toList.filter (· != w.draft.unit)).any (· == u) ||
          w.draft.dependencies.contains u) := fun u => OrderedSet.contains_addAll _ _ u
    refine Table.forall_insert (fun key r recorded guard member u named => ?_)
      fun guard member u named => ?_
    · refine (h key r recorded guard member u named).imp_right fun depends => ?_
      exact (contains u).trans (by rw [depends, Bool.or_true])
    · by_cases own : u = w.draft.unit
      · exact .inl own
      · have listed : (units.toList.filter (· != w.draft.unit)).any (· == u) = true := by
          refine List.any_eq_true.2 ⟨u, List.mem_filter.2 ⟨?_, bne_iff_ne.2 own⟩, BEq.rfl⟩
          exact OrderedSet.mem_toList.2 (truthful guard member u named)
        exact .inr ((contains u).trans (by rw [listed, Bool.true_or]))
  | @grant key r writable recorded => exact Table.forall_insert h (h key r recorded)
  | withhold writable =>
    intro key r recorded
    rw [Writing.draft_withDraft, Table.get?_erase] at recorded
    split at recorded
    · cases recorded
    · exact h key r recorded
  | _ => exact h

/-! ## What sessions do is truthful -/

namespace Session

/-- A variant has the guards of its declaration, or none. -/
theorem guards_of_mem_expandDefaults {name : String} {params guards : List Tree} {body : Tree}
    {stem : String} {v : Tree.Variant}
    (h : v ∈ Tree.expandDefaults name params guards body stem) : v.guards ⊆ guards := by
  rcases List.mem_append.1 h with h | h
  · obtain ⟨supplied, -, rfl⟩ := List.mem_map.1 h
    exact List.nil_subset _
  · obtain rfl := List.mem_singleton.1 h
    exact List.Subset.refl _

/-- **Declarations.** -/
theorem define_truthful (store : Store) (declaration : Declaration) (spliced : Bool) :
    Step.Performs Event.Truthful (define store declaration spliced) := by
  intro b loaded
  rcases define_runs loaded store declaration spliced with
    ⟨error, -, failed⟩ | ⟨body, guards, units, admissions, _, b', prepared, rfl, outcome⟩
  · exact ⟨[], by rw [failed]; exact .refl loaded, by simp⟩
  obtain ⟨-, -, -, isUnit⟩ := prepareAll_eq_ok prepared
  have declared : ∀ event ∈ declarations declaration units
      (Tree.expandDefaults declaration.name declaration.params guards body b.session.config.stem)
      admissions, event.Truthful := by
    intro event member
    obtain ⟨v, isVariant, admission, rfl⟩ := exists_of_mem_declarations member
    intro guard isGuard u named
    have isGuard : guard ∈ guards := guards_of_mem_expandDefaults isVariant isGuard
    exact (isUnit u).2 ⟨guard, List.mem_cons_of_mem _ isGuard, named⟩
  rcases outcome with ⟨done, -, runs⟩ | ⟨error, failed, -, -, runs⟩
  · refine ⟨_, by rw [done]; exact runs, fun event member => ?_⟩
    rcases List.mem_append.1 member with member | member
    · exact declared event member
    · obtain rfl := eq_of_mem_requirement member
      trivial
  · exact ⟨_, by rw [failed]; exact runs, declared⟩

/-- **Statements.** -/
theorem run_truthful (store : Store) (spliced : Bool) (statement : Statement) :
    Step.Performs Event.Truthful (run store spliced statement) := by
  cases statement with
  | define declaration =>
    refine (define_truthful store declaration spliced).bind fun admissions => ?_
    split
    · exact (grantRecorded_performs _ _ admissions).mono fun _ ⟨_, same⟩ => same ▸ trivial
    · exact .of_unchanged fun _ => rfl
  | grant key => exact (grant_performs key).mono fun _ same => same ▸ trivial
  | withhold key => exact (withhold_performs key).mono fun _ same => same ▸ trivial

theorem splice_truthful (store : Store) (hooks : List Hook) :
    Step.Performs Event.Truthful (splice store hooks) :=
  .forM fun _ _ => .forM fun statement _ => run_truthful store true statement

end Session

/-- **Commands.** -/
theorem Command.work?_truthful {command : Command} {store : Store} {m : Step Bench Reply}
    (isWork : command.work? store = some m) : Step.Performs Event.Truthful m := by
  have answers : ∀ reply : Reply, Step.Performs Event.Truthful (pure reply : Step Bench Reply) :=
    fun _ => .of_unchanged fun _ => rfl
  cases command with
  | openRoot | openExtension | finish => cases isWork
  | define unit declaration =>
    cases isWork
    exact (Session.define_truthful store declaration false).bind fun _ => answers _
  | grant unit key =>
    cases isWork
    exact (Session.run_truthful store false (.grant key)).bind fun _ => answers _
  | withhold unit key =>
    cases isWork
    exact (Session.run_truthful store false (.withhold key)).bind fun _ => answers _
  | importRoutines unit source keys =>
    cases isWork
    refine Step.Performs.bind ?_ fun _ => answers _
    exact (Session.importRoutines_performs store source keys).mono
      fun _ ⟨_, _, same⟩ => same ▸ trivial
  | setHooks unit pre post =>
    cases isWork
    refine Step.Performs.bind ?_ fun _ => answers _
    exact (Session.setHooks_performs pre post).mono fun _ same => same ▸ trivial
  | run unit statement spliced =>
    cases isWork
    exact (Session.run_truthful store spliced statement).bind fun _ => answers _

/-! ## What inherited routines need -/

section Inheritance

variable {config : Config} {base : Registry} {key : Key} {r r' : RoutineRecord}
  {needs : List String}

/-- A copy needs the units that it names. -/
theorem within_needs_of_copyRoutine (h : copyRoutine config base r = .ok (r', needs)) :
    r'.Within (· ∈ needs) := by
  obtain ⟨⟨body, units⟩, ofBody, h⟩ := exists_of_bind_eq_ok h
  obtain ⟨guards, ofGuards, h⟩ := exists_of_bind_eq_ok h
  cases h
  have pairs := forall₂_of_mapM_eq_ok ofGuards
  refine List.forall_mem_cons.2 ⟨fun u named => ?_, fun guard isGuard u named => ?_⟩
  · have isUnit := (Tree.contains_units_iff ofBody u).2 named
    exact List.mem_append_left _ (OrderedSet.mem_toList.2 isUnit)
  · obtain ⟨g, listed, rfl⟩ := List.mem_map.1 isGuard
    obtain ⟨original, -, done⟩ := exists_left_of_forall₂ pairs listed
    have isUnit := (Tree.contains_units_iff done u).2 named
    exact List.mem_append_right _ (List.mem_flatMap.2 ⟨g, listed, OrderedSet.mem_toList.2 isUnit⟩)

/-- **An inherited routine** names units that it needs, and dependencies of a base that tracks its
guards. -/
theorem within_needs_of_inheritRoutine (tracks : base.TracksGuards)
    (recorded : base.routines.get? key = some r)
    (h : inheritRoutine config base key r = .ok (r', needs)) :
    r'.Within fun u => u ∈ needs ∨ base.dependencies.contains u = true := by
  unfold inheritRoutine at h
  split at h
  · cases h
    refine List.forall_mem_cons.2 ⟨?_, fun guard isGuard u named => ?_⟩
    · refine Tree.within_iff.2 ⟨fun u named => ?_, fun x isArg => ?_⟩
      · cases named
        exact .inl (List.mem_singleton_self _)
      · obtain ⟨entry, -, rfl⟩ := List.mem_map.1 isArg
        exact fun _ named => nomatch named
    · -- The guard is one of the base, which tracks it.
      rcases tracks key r recorded guard (List.mem_filter.1 isGuard).1 u named with rfl | depends
      · exact .inl (List.mem_singleton_self _)
      · exact .inr depends
  · intro t member u named
    exact .inl (within_needs_of_copyRoutine h t member u named)

variable {fields : Value} {unit : String} {resolution : Resolution}

/-- What an extension inherits at a key is taken over from an entry that the base passes on. -/
theorem mem_inheritAll_iff {routines : List Inherited}
    (inheriting : inheritAll config base = .ok routines) (u : String) :
    u ∈ routines.flatMap Inherited.needs ↔
      ∃ key r r' needs, base.routines.get? key = some r ∧ base.withheld.contains key = false ∧
        inheritRoutine config base key r = .ok (r', needs) ∧ u ∈ needs := by
  have taken := inheritAll_eq_ok inheriting
  rw [List.mem_flatMap]
  constructor
  · rintro ⟨inherited, isIn, needed⟩
    obtain ⟨⟨key, r⟩, passed, -, becomes⟩ := exists_left_of_forall₂ taken isIn
    obtain ⟨stored, kept⟩ := List.mem_filter.1 passed
    exact ⟨key, r, inherited.routine, inherited.needs,
      Table.get?_eq_some_iff.2 ⟨key, stored, BEq.rfl⟩, by simpa using kept, becomes, needed⟩
  · rintro ⟨key, r, r', needs, recorded, passedOn, becomes, needed⟩
    obtain ⟨key', stored, agrees⟩ := Table.get?_eq_some_iff.1 recorded
    have passed : (key', r) ∈ base.passedOn := by
      refine List.mem_filter.2 ⟨stored, ?_⟩
      rw [Table.contains_congr _ agrees, passedOn]
      rfl
    obtain ⟨inherited, isIn, -, becomes'⟩ := exists_right_of_forall₂ taken passed
    rw [inheritRoutine_congr agrees, becomes] at becomes'
    cases becomes'
    exact ⟨inherited, isIn, needed⟩

/-- The dependencies of an extension are those of the base and what the inherited routines need,
but for the extension itself. -/
theorem contains_dependencies_iff (h : resolve base fields unit config = .ok resolution)
    (u : String) :
    resolution.draft.dependencies.contains u = true ↔
      u ≠ unit ∧ (base.dependencies.contains u = true ∨
        ∃ key r r' needs, base.routines.get? key = some r ∧
          base.withheld.contains key = false ∧
          inheritRoutine config base key r = .ok (r', needs) ∧ u ∈ needs) := by
  obtain ⟨merged, routines, -, inheriting, draft, -⟩ := resolve_eq_ok h
  rw [draft, ← mem_inheritAll_iff inheriting, ← OrderedSet.mem_toList (s := base.dependencies),
    ← List.mem_append]
  show (OrderedSet.addAll ∅ _).contains u = true ↔ _
  rw [OrderedSet.contains_addAll, Table.contains_empty, Bool.or_false, List.any_eq_true]
  constructor
  · rintro ⟨x, listed, same⟩
    rw [eq_of_beq same] at listed
    obtain ⟨listed, other⟩ := List.mem_filter.1 listed
    exact ⟨bne_iff_ne.1 other, listed⟩
  · rintro ⟨other, listed⟩
    exact ⟨u, List.mem_filter.2 ⟨listed, bne_iff_ne.2 other⟩, BEq.rfl⟩

/-- **What an extension records** names dependencies of it, or itself. -/
theorem within_of_resolve_tracks (h : resolve base fields unit config = .ok resolution)
    (tracks : base.TracksGuards) {r' : RoutineRecord}
    (recorded : resolution.draft.routines.get? key = some r') :
    r'.Within fun u => u = unit ∨ resolution.draft.dependencies.contains u = true := by
  obtain ⟨r, needs, original, passedOn, becomes⟩ := (get?_inherited_iff h).1 recorded
  intro t member u named
  by_cases own : u = unit
  · exact .inl own
  · refine .inr ((contains_dependencies_iff h u).2 ⟨own, ?_⟩)
    rcases within_needs_of_inheritRoutine tracks original becomes t member u named with
      needed | depends
    · exact .inr ⟨key, r, r', needs, original, passedOn, becomes, needed⟩
    · exact .inl depends

/-- An extension tracks its guards if its base does. -/
theorem tracksGuards_of_resolve (h : resolve base fields unit config = .ok resolution)
    (tracks : base.TracksGuards) : resolution.draft.toRegistry.TracksGuards := by
  intro key r' recorded guard isGuard u named
  obtain ⟨isUnit, -⟩ := draft_of_resolve h
  have tracked := within_of_resolve_tracks h tracks recorded guard (List.mem_cons_of_mem _ isGuard)
    u named
  rwa [← isUnit] at tracked

end Inheritance

/-! ## Sessions of a workspace -/

/-- Truthful events keep guards tracked. -/
theorem Trace.tracksGuards {w w' : Writing} {events : List Event} (trace : Trace w events w')
    (truthful : ∀ event ∈ events, event.Truthful) (start : w.draft.toRegistry.TracksGuards) :
    w'.draft.toRegistry.TracksGuards :=
  trace.invariant (I := fun w => w.draft.toRegistry.TracksGuards)
    (fun _ _ _ member move => move.tracksGuards (truthful _ member)) start

namespace Workspace

variable {w : Workspace}

/-- All sessions track their guards. -/
def TracksGuards (w : Workspace) : Prop :=
  ∀ (unit : String) (s : Session), w.sessions.get? unit = some s →
    s.draft.toRegistry.TracksGuards

/-- A published registry tracks its guards. -/
theorem Coherent.registry_tracksGuards (h : w.Coherent) (tracks : w.TracksGuards) {base : String}
    {registry : Registry} (published : w.store.get? base = some registry) :
    registry.TracksGuards := by
  obtain ⟨s, session, -, rfl⟩ := h.published published
  exact tracks base s session

/-- **One command** keeps the guards of all sessions tracked. -/
theorem Coherent.tracksGuards_after (h : w.Coherent) (tracks : w.TracksGuards)
    (command : Command) : (w.after command).TracksGuards := by
  intro unit s session
  cases before : w.sessions.get? unit with
  | some s₀ =>
    obtain ⟨-, image, held, -⟩ := h.session before
    obtain ⟨s', image', events, session', -, trace, truthful⟩ :=
      h.session_performs before held (fun _ _ isWork => Command.work?_truthful isWork)
        fun _ _ => Event.truthful_of_silent
    cases session.symm.trans session'
    exact trace.tracksGuards truthful (tracks unit s₀ before)
  | none =>
    rcases opens_of_new session before with ⟨config, fields, rfl⟩ | ⟨config, base, fields, rfl⟩
    · obtain ⟨merged, -, isDraft⟩ := draft_of_new_root session before
      rw [isDraft]
      exact fun _ _ recorded => nomatch recorded
    · obtain ⟨-, image, held, -⟩ := (h.after _).session session
      obtain ⟨registry, resolution, pre, post, published, resolved, truthful, trace⟩ :=
        extension_of_new (P := fun _ => Event.Truthful)
          (fun _ hooks _ _ => Session.splice_truthful w.store hooks) session held before
      refine trace.tracksGuards (fun event member => ?_)
        (tracksGuards_of_resolve resolved (h.registry_tracksGuards tracks published))
      -- Only the hooks declare anything.
      rcases List.mem_append.1 member with member | member
      · exact truthful event (List.mem_append_left _ member)
      rcases List.mem_append.1 member with member | member
      · obtain ⟨e, -, rfl⟩ := List.mem_map.1 member
        trivial
      rcases List.mem_cons.1 member with rfl | member
      · trivial
      · exact truthful event (List.mem_append_right _ member)

/-- **Any commands** leave the guards of all sessions tracked. -/
theorem Reachable.tracksGuards (h : w.Reachable) : w.TracksGuards := by
  induction h with
  | empty => exact fun _ _ session => nomatch session
  | after command reachable ih => exact reachable.coherent.tracksGuards_after ih command

end Workspace

/-! ## The requirements of a resolution -/

namespace Workspace

/-- **Requirements.**  What is resolved for an extension requires, in order, the units on which the
draft depends: those on which the base depended and those that its routines name are among them, the
extension itself is not. -/
theorem Reachable.requires_complete {w : Workspace} (h : w.Reachable) {base : String}
    {registry : Registry} (published : w.store.get? base = some registry) (config : Config)
    (fields : Value) (unit : String) :
    ((∃ resolution, resolve registry fields unit config = .ok resolution) ↔
        ∃ merged, mergeFields registry.fields fields = .ok merged) ∧
      ∀ resolution, resolve registry fields unit config = .ok resolution →
        resolution.emissions.requires.Pairwise (· < ·) ∧
        (∀ u, u ∈ resolution.emissions.requires ↔
          resolution.draft.dependencies.contains u = true) ∧
        unit ∉ resolution.emissions.requires ∧
        (∀ u, registry.dependencies.contains u = true → u ≠ unit →
          u ∈ resolution.emissions.requires) ∧
        ∀ e ∈ resolution.emissions.routines, ∀ t ∈ e.body :: e.guards, ∀ u ∈ t.remoteUnits,
          u ≠ unit → u ∈ resolution.emissions.requires := by
  have tracks := h.coherent.registry_tracksGuards h.tracksGuards published
  have proper : registry.Proper := by
    obtain ⟨s, session, -, rfl⟩ := h.coherent.published published
    obtain ⟨-, image, -, attained⟩ := h.coherent.session session
    exact attained.proper
  have resolves : (∃ resolution, resolve registry fields unit config = .ok resolution) ↔
      ∃ merged, mergeFields registry.fields fields = .ok merged := by
    constructor
    · rintro ⟨resolution, resolved⟩
      obtain ⟨merged, -, merging, -⟩ := resolve_eq_ok resolved
      exact ⟨merged, merging⟩
    · rintro ⟨merged, merging⟩
      obtain ⟨resolution, resolved, -⟩ := proper.exists_resolution config unit merging
      exact ⟨resolution, resolved⟩
  refine ⟨resolves, fun resolution resolved => ?_⟩
  obtain ⟨_, _, -, -, -, emissions⟩ := resolve_eq_ok resolved
  have listed : ∀ u, u ∈ resolution.emissions.requires ↔
      resolution.draft.dependencies.contains u = true := by
    intro u
    rw [emissions, ← OrderedSet.mem_toList]
    exact List.mem_mergeSort
  refine ⟨?_, listed, fun isIn => ?_, fun u depends other => ?_,
    fun e isEmission t isTree u named other => ?_⟩
  · rw [emissions]
    exact NameSet.pairwise_sorted _
  · exact ((contains_dependencies_iff resolved unit).1 ((listed unit).1 isIn)).1 rfl
  · exact (listed u).2 ((contains_dependencies_iff resolved u).2 ⟨other, .inl depends⟩)
  · rw [emissions_eq resolved] at isEmission
    obtain ⟨⟨key, r⟩, stored, rfl⟩ := List.mem_map.1 isEmission
    have recorded := Table.get?_eq_some_iff.2 ⟨key, stored, BEq.rfl⟩
    have within := within_of_resolve_tracks resolved tracks recorded t isTree u named
    exact (listed u).2 (within.resolve_left other)

/-- A unit with a private routine.  What calls it is guarded by another unit, and so it is forwarded
with this guard. -/
def guardedCommands : List Command :=
  [.openRoot {} "lib" (.list []),
    .define "lib" ⟨"allowed", [.binding "x"], .var "x", [], false, false⟩, .finish "lib",
    .openRoot {} "base" (.list []),
    .define "base" ⟨"secret", [], .literal (.int 1), [], true, false⟩,
    .define "base" ⟨"reveal", [.binding "x"], .call "secret" [],
      [.remoteCall "lib" "allowed" [.var "x"]], false, false⟩, .finish "base"]

/-- The routine of an extension of that unit. -/
def guardedEmission : Emission :=
  { key := .ofCount "reveal" 1
    params := [.binding "x"]
    guards := [.remoteCall "lib" "allowed" [.var "x"]]
    body := .remoteCall "base" "reveal" [.var "x"]
    origin := .delegated }

/-- An extension requires the unit that only the guard of a forwarder names. -/
theorem requires_complete_guarded :
    ∃ registry resolution, (afterAll ∅ guardedCommands).store.get? "base" = some registry ∧
      resolve registry (.tuple []) "child" {} = .ok resolution ∧
      resolution.emissions.routines = [guardedEmission] ∧
      resolution.emissions.requires.Pairwise (· < ·) ∧ "lib" ∈ resolution.emissions.requires := by
  have evaluated : ((afterAll ∅ guardedCommands).store.get? "base").map (fun registry =>
      (resolve registry (.tuple []) "child" {}).map fun r => r.emissions.routines) =
        some (.ok [guardedEmission]) := by cbv
  obtain ⟨registry, published, resolves⟩ := Option.map_eq_some_iff.1 evaluated
  obtain ⟨-, complete⟩ := Reachable.requires_complete (Reachable.empty.afterAll guardedCommands)
    published {} (.tuple []) "child"
  cases resolved : resolve registry (.tuple []) "child" {} with
  | error e =>
    rw [resolved] at resolves
    cases resolves
  | ok resolution =>
    rw [resolved] at resolves
    have routines : resolution.emissions.routines = [guardedEmission] := Except.ok.inj resolves
    obtain ⟨increasing, -, -, -, named⟩ := complete resolution resolved
    refine ⟨registry, resolution, published, resolved, routines, increasing, ?_⟩
    have isEmission : guardedEmission ∈ resolution.emissions.routines :=
      routines ▸ List.mem_singleton_self _
    exact named guardedEmission isEmission (.remoteCall "lib" "allowed" [.var "x"])
      (List.mem_cons_of_mem _ List.mem_cons_self) "lib" (by decide +kernel) (by decide)

end Workspace

end Heredity
