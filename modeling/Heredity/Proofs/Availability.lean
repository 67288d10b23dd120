import Heredity.Proofs.Naming

/-!
# Sessions that lack no unit

Let a session be given only units that are available: its base and the sources of its imports are
published, and it names loaded units only.  Then no operation fails for want of a unit, and what it
leaves behind names loaded units only.

* `Step.Safe` — a step keeps an invariant and does not fail for want of a unit, with one rule for
  each way of putting steps together.
* `Bench.Sound` — the invariant of a session.
* `run_safe`, `importRoutines_safe`, `setHooks_safe`, `materialize_safe` — the operations.
* `close_cases` — closing alone looks at what is loaded, and says what is missing.
* `openingBench_root_sound`, `openingBench_resolved_sound` — units that have just been opened.

The units that may be named and those that are loaded are two parameters of the invariant.  Where
they agree, nothing is missing in the end.
-/

namespace Heredity

open Step (exec)

/-! ## Safe steps -/

namespace Step

variable {σ α β : Type} {I : σ → Prop} {s : σ}

/-- From a certain state, a step keeps an invariant and does not fail for want of a unit. -/
def SafeAt (I : σ → Prop) (m : Step σ α) (s : σ) : Prop := I (exec m s).2 ∧ Served (exec m s).1

/-- From every state in which the invariant holds. -/
def Safe (I : σ → Prop) (m : Step σ α) : Prop := ∀ s, I s → SafeAt I m s

theorem SafeAt.bind {m : Step σ α} {f : α → Step σ β} (h : SafeAt I m s)
    (h' : ∀ a s', exec m s = (.ok a, s') → I s' → SafeAt I (f a) s') : SafeAt I (m >>= f) s := by
  obtain ⟨kept, served⟩ := h
  unfold SafeAt
  rw [exec_bind]
  cases outcome : exec m s with
  | mk result s' =>
    rw [outcome] at kept served
    cases result with
    | error e => exact ⟨kept, .error (served e rfl)⟩
    | ok a => exact h' a s' outcome kept

namespace Safe

theorem pure (a : α) : Safe I (pure a : Step σ α) := fun _ h => ⟨h, .ok a⟩

theorem bind {m : Step σ α} {f : α → Step σ β} (h : Safe I m) (h' : ∀ a, Safe I (f a)) :
    Safe I (m >>= f) := fun s kept => (h s kept).bind fun a s' _ kept' => h' a s' kept'

theorem get_bind {f : σ → Step σ β} (h : ∀ s, I s → SafeAt I (f s) s) : Safe I (get >>= f) :=
  fun s kept => h s kept

theorem forM {f : α → Step σ Unit} {xs : List α} (h : ∀ x ∈ xs, Safe I (f x)) :
    Safe I (xs.forM f) := by
  induction xs with
  | nil => exact pure _
  | cons x xs ih =>
    exact (h x List.mem_cons_self).bind fun _ => ih fun y hy => h y (List.mem_cons_of_mem x hy)

end Safe

end Step

open Step (Safe SafeAt)

/-! ## Sound sessions -/

/-- A session names units of a certain kind, its base is published, and certain units are loaded. -/
structure Bench.Sound (store : Store) (name : String) (named loaded : String → Prop) (b : Bench) :
    Prop where
  /-- The unit has the given name. -/
  unit : b.unit = name
  /-- The unit is loaded, and it names such units only. -/
  within : ∃ w, b.Shows w ∧ w.Within named
  /-- The base is published. -/
  base : ∀ base, b.session.draft.base = some base → ∃ r, store.get? base = some r
  /-- The units are loaded. -/
  loaded : ∀ u, loaded u → b.program.contains u = true

namespace Bench.Sound

variable {store : Store} {name : String} {named loaded : String → Prop} {b b' : Bench}

theorem isLoaded (h : b.Sound store name named loaded) : b.Loaded :=
  let ⟨_, shows', _⟩ := h.within
  shows'.loaded

/-- What a session names after events is what it named before, and what they name. -/
theorem runs (h : b.Sound store name named loaded) {events : List Event} (runs : b.Runs events b')
    (within : ∀ event ∈ events, event.Within named) : b'.Sound store name named loaded := by
  have unit_eq := runs.unit_eq
  have isLoaded := runs.loaded
  obtain ⟨w₀, shows₀, within₀⟩ := h.within
  obtain ⟨w, w', shows', shows'', trace, elsewhere⟩ := runs
  obtain rfl := shows₀.unique shows'
  refine ⟨unit_eq.trans h.unit, ⟨w', shows'', ?_⟩, fun base isBase => ?_, fun u isIn => ?_⟩
  · exact trace.invariant (I := Writing.Within named)
      (fun _ event _ member move kept => move.within kept (within event member)) within₀
  · refine h.base base ?_
    rw [shows'.1]
    rw [shows''.1] at isBase
    exact trace.base_eq ▸ isBase
  · by_cases same : u = b.unit
    · obtain ⟨image, held⟩ := isLoaded
      rw [unit_eq, ← same] at held
      exact Table.contains_iff_exists_get?.2 ⟨image, held⟩
    · obtain ⟨image, held⟩ := Table.contains_iff_exists_get?.1 (h.loaded u isIn)
      exact Table.contains_iff_exists_get?.2 ⟨image, (elsewhere u same).trans held⟩

/-- A step that always leaves events behind. -/
theorem safeAt_of_runs {α : Type} {m : Step Bench α} (h : b.Sound store name named loaded) {a : α}
    {events : List Event} (step : ∃ b', exec m b = (.ok a, b') ∧ b.Runs events b')
    (within : ∀ event ∈ events, event.Within named) :
    SafeAt (Bench.Sound store name named loaded) m b := by
  obtain ⟨b', done, runs⟩ := step
  unfold SafeAt
  rw [done]
  exact ⟨h.runs runs within, .ok a⟩

end Bench.Sound

namespace Session

variable {store : Store} {name : String} {named loaded : String → Prop}

theorem updateDraft_safe {f : Draft → Except Error Draft} (event : Event)
    (within : event.Within named) (served : ∀ d, Served (f d))
    (move : ∀ w : Writing, ∀ d, f w.draft = .ok d → Moves w event (w.withDraft d)) :
    Safe (Bench.Sound store name named loaded) (Bench.updateDraft f) := by
  intro b sound
  rcases Bench.exec_updateDraft_runs sound.isLoaded fun w _ => move w with
    ⟨error, failed⟩ | step
  · have refused : f b.session.draft = .error error := by
      rw [Bench.exec_updateDraft] at failed
      cases written : f b.session.draft with
      | error e =>
        rw [written] at failed
        cases failed
        rfl
      | ok d =>
        rw [written] at failed
        cases failed
    unfold SafeAt
    rw [failed]
    exact ⟨sound, .error (served _ error refused)⟩
  · exact sound.safeAt_of_runs step (List.forall_mem_singleton.2 within)

theorem grant_safe (key : Key) : Safe (Bench.Sound store name named loaded) (grant key) :=
  updateDraft_safe (.grant key) trivial (Ledger.served_grant · key) moves_grant

theorem withhold_safe (key : Key) : Safe (Bench.Sound store name named loaded) (withhold key) :=
  updateDraft_safe (.withhold key) trivial (Ledger.served_withhold · key) moves_withhold

theorem setHooks_safe {pre post : Option Hook}
    (within : ∀ hook ∈ pre.toList ++ post.toList, ∀ s ∈ hook, s.Within named) :
    Safe (Bench.Sound store name named loaded) (setHooks pre post) :=
  updateDraft_safe (.setHooks pre post) within (fun d => d.served_write _) moves_setHooks

/-- Imports are noted with the unit of the registry that they come from. -/
theorem importRoutine_safe {registry : Registry} (within : named registry.unit) (key : Key) :
    Safe (Bench.Sound store name named loaded) (importRoutine registry key) := by
  unfold importRoutine
  split
  · exact updateDraft_safe (.importKey key registry.unit) within (fun d => d.served_write _)
      moves_importKey
  · exact fun b sound => ⟨sound, .error rfl⟩

theorem importRoutines_safe {source : String} {registry : Registry}
    (published : store.get? source = some registry) (within : named registry.unit)
    (keys : Option (List Key)) :
    Safe (Bench.Sound store name named loaded) (importRoutines store (.text source) keys) := by
  refine .get_bind fun b sound => ?_
  have found : store.requireValue (.text source) b.unit = .ok registry := by
    rw [Store.requireValue, Store.require, published]
  rw [found]
  exact Safe.forM (fun key _ => importRoutine_safe within key) b sound

/-- What is prepared names what was written, the base, and the sources of imports. -/
theorem within_of_prepareAll {d : Draft} {declaration : Declaration} {body : Tree}
    {guards : List Tree} {units : NameSet}
    (h : prepareAll store d declaration = .ok (body, guards, units))
    (registry : d.toRegistry.Within named)
    (written : ∀ t ∈ declaration.body :: declaration.guards, t.Within named) :
    (∀ t ∈ body :: guards, t.Within named) ∧ ∀ u, units.contains u = true → named u := by
  obtain ⟨rfl, rfl, -, isUnit⟩ := prepareAll_eq_ok h
  have within : ∀ t ∈ prepared d declaration.name declaration.body ::
      declaration.guards.map (prepared d declaration.name), t.Within named := by
    rw [← List.map_cons]
    intro t member
    obtain ⟨expr, isWritten, rfl⟩ := List.mem_map.1 member
    exact ((written expr isWritten).bound registry.base).qualified registry.imports
  refine ⟨within, fun u member => ?_⟩
  obtain ⟨t, isTree, names⟩ := (isUnit u).1 member
  exact within t isTree u names

/-- **Declarations.** -/
theorem define_safe {declaration : Declaration}
    (written : (Statement.define declaration).Within named) (spliced : Bool) :
    Safe (Bench.Sound store name named loaded) (define store declaration spliced) := by
  intro b sound
  unfold SafeAt
  rcases define_runs sound.isLoaded store declaration spliced with
    ⟨error, refused, failed⟩ | ⟨body, guards, units, admissions, _, b', prepared, rfl, outcome⟩
  · rw [failed]
    exact ⟨sound, .error (served_prepareAll sound.base declaration error refused)⟩
  obtain ⟨w, shows', within⟩ := sound.within
  have registry : b.session.draft.toRegistry.Within named := by
    rw [shows'.1]
    exact within.draft
  obtain ⟨isBody, areGuards, areParams⟩ : declaration.body.Within named ∧
      (∀ guard ∈ declaration.guards, guard.Within named) ∧
        ∀ param ∈ declaration.params, param.Within named := by
    obtain ⟨isBody, rest⟩ := List.forall_mem_cons.1 written
    exact ⟨isBody, List.forall_mem_append.1 rest⟩
  obtain ⟨trees, required⟩ := within_of_prepareAll prepared registry
    (List.forall_mem_cons.2 ⟨isBody, areGuards⟩)
  obtain ⟨isBody, areGuards⟩ := List.forall_mem_cons.1 trees
  have declared : ∀ event ∈ declarations declaration units
      (Tree.expandDefaults declaration.name declaration.params guards body b.session.config.stem)
      admissions, event.Within named := by
    intro event member
    obtain ⟨v, isVariant, admission, rfl⟩ := exists_of_mem_declarations member
    exact ⟨Tree.within_of_mem_expandDefaults isBody areGuards areParams isVariant, required⟩
  rcases outcome with ⟨done, -, runs⟩ | ⟨error, failed, -, served, runs⟩
  · rw [done]
    refine ⟨sound.runs runs fun event member => ?_, .ok admissions⟩
    rcases List.mem_append.1 member with member | member
    · exact declared event member
    · obtain rfl := eq_of_mem_requirement member
      exact fun u listed => required u (OrderedSet.mem_toList.1 listed)
  · rw [failed]
    exact ⟨sound.runs runs declared, .error served⟩

theorem grantRecorded_safe (routine : String) (arity : Nat) (admissions : List Admission) :
    Safe (Bench.Sound store name named loaded) (grantRecorded routine arity admissions) := by
  induction admissions generalizing arity with
  | nil => exact .pure _
  | cons admission admissions ih =>
    unfold grantRecorded
    split
    · exact (grant_safe _).bind fun _ => ih (arity + 1)
    · exact ih (arity + 1)

/-- **Statements.** -/
theorem run_safe {statement : Statement} (written : statement.Within named) (spliced : Bool) :
    Safe (Bench.Sound store name named loaded) (run store spliced statement) := by
  cases statement with
  | define declaration =>
    refine (define_safe written spliced).bind fun admissions => ?_
    split
    · exact grantRecorded_safe _ _ admissions
    · exact .pure _
  | grant key => exact grant_safe key
  | withhold key => exact withhold_safe key

theorem splice_safe {hooks : List Hook} (written : ∀ hook ∈ hooks, ∀ s ∈ hook, s.Within named) :
    Safe (Bench.Sound store name named loaded) (splice store hooks) :=
  .forM fun hook isHook => .forM fun s inside => run_safe (written hook isHook s inside) true

/-- **Putting in place what is inherited.** -/
theorem materialize_safe {emissions : EmissionList}
    (first : ∀ hook ∈ emissions.preHooks, ∀ s ∈ hook, s.Within named)
    (last : ∀ hook ∈ emissions.postHooks, ∀ s ∈ hook, s.Within named)
    (required : ∀ u ∈ emissions.requires, named u) :
    Safe (Bench.Sound store name named loaded) (materialize store emissions) := by
  refine (splice_safe first).bind fun _ => ?_
  refine Safe.bind (.forM fun e _ b sound => ?_) fun _ => .get_bind fun b sound => ?_
  · exact sound.safeAt_of_runs (emitInherited_runs sound.isLoaded e) (by simp [Event.Within])
  · refine SafeAt.bind ?_ fun _ b' _ sound' => splice_safe last b' sound'
    exact sound.safeAt_of_runs (exec_require sound.isLoaded emissions.requires)
      (List.forall_mem_singleton.2 required)

/-- What an extension inherits is put in place safely, if its base names such units only. -/
theorem materialize_safe_of_resolve {base : Registry} {fields : Value} {unit : String}
    {config : Config} {resolution : Resolution}
    (resolved : resolve base fields unit config = .ok resolution) (within : base.Within named)
    (isBase : named base.unit) :
    Safe (Bench.Sound store name named loaded) (materialize store resolution.emissions) := by
  have inherited : resolution.draft.toRegistry.Within named :=
    within_of_resolve resolved within isBase
  obtain ⟨merged, routines, -, -, -, emissions⟩ := resolve_eq_ok resolved
  rw [emissions]
  refine materialize_safe (fun hook isHook => ?_) (fun hook isHook => ?_) fun u required => ?_
  · exact within.hooks hook (List.mem_append_left _ isHook)
  · exact within.hooks hook (List.mem_append_right _ isHook)
  · exact inherited.dependencies u (OrderedSet.mem_toList.1 (List.mem_mergeSort.1 required))

/-- **Closing.**  If it fails for want of units, these are named and not loaded. -/
theorem close_cases {b : Bench} (sound : b.Sound store name named loaded) :
    (∃ error, (exec close b).1 = .error error ∧
        (error.isUnresolved = false ∨ ∃ missing, error = .requirementsNotLoaded name missing ∧
          missing ≠ [] ∧ ∀ u ∈ missing, named u ∧ ¬ loaded u)) ∨
      ∃ b', exec close b = (.ok b'.session.draft.toRegistry, b') ∧
        b'.Sound store name named loaded := by
  rcases close_runs sound.isLoaded with
    ⟨error, failed, served⟩ | ⟨image, b', held, lacking, failed, -⟩ |
      ⟨registry, b', done, runs, -, rfl⟩
  · exact .inl ⟨error, by rw [failed], .inl served⟩
  · refine .inl ⟨_, by rw [failed], .inr ⟨_, by rw [sound.unit], lacking, fun u missing => ?_⟩⟩
    obtain ⟨w, shows', within⟩ := sound.within
    cases held.symm.trans shows'.2
    obtain ⟨required, unloaded⟩ := Program.mem_missing_iff.1 missing
    refine ⟨within.requires u required, fun isLoaded => ?_⟩
    rw [sound.loaded u isLoaded] at unloaded
    cases unloaded
  · exact .inr ⟨b', done, sound.runs runs (by simp [Event.Within])⟩

end Session

/-! ## Opening -/

namespace Site

variable {site : Site} {named : String → Prop}

/-- A unit that has just been opened names what its draft names. -/
theorem openingBench_sound (config : Config) {draft : Draft}
    (within : draft.toRegistry.Within named)
    (base : ∀ base, draft.base = some base → ∃ r, site.store.get? base = some r) :
    (site.openingBench config draft).Sound site.store draft.unit named
      fun u => u = draft.unit ∨ site.program.contains u = true where
  unit := rfl
  within := ⟨_, site.openingBench_shows config draft, within, fun _ none => nomatch none⟩
  base := base
  loaded u isLoaded := by
    show (site.program.setImage draft.unit _).units.contains u = true
    rw [Program.setImage, Table.contains_insert, Bool.or_eq_true, beq_iff_eq]
    exact isLoaded.imp_left Eq.symm

/-- A root that has just been opened names nothing. -/
theorem openingBench_root_sound (config : Config) (unit : String) (fields : Table Value Value) :
    (site.openingBench config { unit := unit, fields := fields }).Sound site.store unit named
      fun u => u = unit ∨ site.program.contains u = true :=
  let draft : Draft := { unit := unit, fields := fields }
  have opening : (site.openingBench config draft).Sound site.store draft.unit named _ :=
    openingBench_sound config (Registry.within_root unit fields) fun _ none => nomatch none
  opening

/-- **An extension that has just been opened** names its base and what its base names. -/
theorem openingBench_resolved_sound {registry : Registry} {config : Config} {fields : Value}
    {unit : String} {resolution : Resolution}
    (resolved : resolve registry fields unit config = .ok resolution)
    (within : registry.Within named) (isBase : named registry.unit)
    (published : ∃ r, site.store.get? registry.unit = some r) :
    (site.openingBench config resolution.draft).Sound site.store unit named
      fun u => u = unit ∨ site.program.contains u = true := by
  obtain ⟨unit_eq, base_eq, -⟩ := draft_of_resolve resolved
  have inherited := within_of_resolve resolved within isBase
  have opening := openingBench_sound config inherited fun base extends_ => by
    cases extends_.symm.trans base_eq
    exact published
  rwa [unit_eq] at opening

end Site

end Heredity
