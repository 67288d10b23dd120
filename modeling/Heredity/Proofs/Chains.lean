import Mathlib
import Heredity.Proofs.Workspaces

/-!
# Chains of extensions

A unit that extends another one and declares nothing passes on what it inherited.  This file follows
the records along a chain of such units, of any length.

* `Registry.extend`, `Registry.extendAll` — the registries along a chain.
* `RoutineRecord.Settled` — what inheriting makes of any record, whatever the record was.
* `RoutineRecord.Settled.again` — what inheriting makes of a settled record.
* `Reachable.extendAll_records` — the last registry of a chain, compared with the first.

**Everything is settled after one step** but for one thing.  A fallback value inside of a pattern
stays in the parameters, and if it calls a key that is withheld, the routine is delegated at every
step anew: its forwarder calls the immediate base, not the unit that has the body.  Fallback values
of parameters are gone after the first step, and so are private routines and imports.
-/

namespace Heredity

/-! ## Calls and names -/

namespace Tree

variable {keys keys' : KeySet} {t : Tree}

/-- What calls one of some keys calls one of more keys. -/
theorem calls_mono (sub : ∀ key, keys.contains key = true → keys'.contains key = true)
    (h : t.calls keys = true) : t.calls keys' = true := by
  obtain ⟨name, args, member, isKey⟩ := calls_iff.1 h
  exact calls_iff.2 ⟨name, args, member, sub _ isKey⟩

/-- Qualifying adds no calls. -/
theorem calls_of_calls_qualified {imports : Table Key String}
    (h : (qualified imports t).calls keys = true) : t.calls keys = true := by
  obtain ⟨name, args, member, isKey⟩ := calls_iff.1 h
  obtain ⟨args', member', length⟩ := call_mem_walk_qualified member
  exact calls_iff.2 ⟨name, args', member', by rwa [length]⟩

/-- The optional parts of a named parameter are optional parts of the parameter. -/
theorem optional_mem_walk_withName {name : String} {pattern value : Tree}
    (h : .optional pattern value ∈ (withName name t).walk) : .optional pattern value ∈ t.walk := by
  cases t with
  | wildcard => simp [withName, walk] at h
  | _ =>
    have h : Tree.optional pattern value ∈ Tree.alias _ name :: walk _ := h
    rcases List.mem_cons.1 h with same | inside
    · cases same
    · exact inside

theorem optional_mem_walk_required {pattern value : Tree}
    (h : .optional pattern value ∈ (required t).walk) : .optional pattern value ∈ t.walk := by
  cases t with
  | optional p v => exact walk_subset_of_mem_children (t := .optional p v) List.mem_cons_self h
  | _ => exact h

/-- Naming parameters adds no optional parts. -/
theorem fallbacksCall_of_mem_nameFrom {stem : String} {position : Nat} {taken : List String}
    {params : List Tree} {named : Named} (member : named ∈ nameFrom stem position taken params)
    (h : fallbacksCall keys named.pattern = true) : params.any (fallbacksCall keys) = true := by
  induction params generalizing position taken with
  | nil => cases member
  | cons param params ih =>
    have here : ∀ {pattern : Tree}, (∀ p v, .optional p v ∈ pattern.walk →
        .optional p v ∈ param.walk) → fallbacksCall keys pattern = true →
        (param :: params).any (fallbacksCall keys) = true := by
      intro pattern sub calls
      obtain ⟨p, v, inside, calls⟩ := fallbacksCall_iff.1 calls
      rw [List.any_cons, fallbacksCall_iff.2 ⟨p, v, sub p v inside, calls⟩, Bool.true_or]
    have later : ∀ {position taken}, named ∈ nameFrom stem position taken params →
        (param :: params).any (fallbacksCall keys) = true := by
      intro position taken member
      rw [List.any_cons, ih member, Bool.or_true]
    rw [nameFrom] at member
    split at member
    · rcases List.mem_cons.1 member with rfl | member
      · exact here (fun p v => optional_mem_walk_required) h
      · exact later member
    · rcases List.mem_cons.1 member with rfl | member
      · exact here (fun p v inside => optional_mem_walk_required
          (optional_mem_walk_withName inside)) h
      · exact later member

theorem fallbacksCall_of_normalize {params guards : List Tree} {stem : String}
    (h : (normalize params guards stem).any (fallbacksCall keys) = true) :
    params.any (fallbacksCall keys) = true := by
  obtain ⟨pattern, member, calls⟩ := List.any_eq_true.1 h
  obtain ⟨named, isNamed, rfl⟩ := List.mem_map.1 member
  exact fallbacksCall_of_mem_nameFrom isNamed calls

end Tree

/-! ## Expressions -/

/-- The body and the guards of a record are expressions. -/
structure RoutineRecord.Proper (r : RoutineRecord) : Prop where
  /-- The body is one. -/
  body : r.body.isExpression = true
  /-- So are the guards. -/
  guards : ∀ guard ∈ r.guards, guard.isExpression = true

/-- A registry records expressions. -/
def Registry.Proper (registry : Registry) : Prop :=
  ∀ key r, registry.routines.get? key = some r → r.Proper

/-- What is inherited consists of expressions, too. -/
theorem RoutineRecord.Proper.inherit {config : Config} {base : Registry} {key : Key}
    {r r' : RoutineRecord} {needs : List String} (h : r.Proper)
    (inherits : inheritRoutine config base key r = .ok (r', needs)) : r'.Proper := by
  rcases inheritRoutine_eq_ok inherits with rfl | ⟨-, rfl⟩
  · exact ⟨rfl, fun guard member => h.guards guard (List.mem_filter.1 member).1⟩
  · refine ⟨(Tree.isExpression_qualified _ _).trans h.body, fun guard member => ?_⟩
    obtain ⟨original, isGuard, rfl⟩ := List.mem_map.1 member
    exact (Tree.isExpression_qualified _ _).trans (h.guards original isGuard)

/-- **Every unit in writing** records expressions. -/
theorem Writing.Attained.proper {w : Writing} (h : w.Attained) : w.draft.toRegistry.Proper :=
  h.records (Q := fun _ r => r.Proper) (fun _ made => ⟨made.body, made.guards⟩)
    (fun proper => ⟨proper.body, proper.guards⟩) (fun _ proper => proper)
    fun inherits proper => proper.inherit inherits

/-- Expressions can be inherited. -/
theorem RoutineRecord.Proper.inheritRoutine {r : RoutineRecord} (h : r.Proper) (config : Config)
    (base : Registry) (key : Key) : ∃ result, inheritRoutine config base key r = .ok result := by
  unfold Heredity.inheritRoutine
  split
  · exact ⟨_, rfl⟩
  · obtain ⟨units, body⟩ := Tree.qualify_of_isExpression base.imports h.body
    obtain ⟨guards, each⟩ : ∃ guards, r.guards.mapM (Tree.qualify base.imports) = .ok guards :=
      exists_mapM_eq_ok fun guard member =>
        (Tree.qualify_of_isExpression base.imports (h.guards guard member)).imp' _ fun _ => id
    exact ⟨_, by rw [copyRoutine, body, each]; rfl⟩

/-! ## One extension -/

/-- The registry of a unit that extends another one and declares nothing. -/
def Registry.extend (config : Config) (base : Registry) (unit : String) :
    Except Error Registry := do
  let resolution ← resolve base (.tuple []) unit config
  let (registry, _) ← resolution.draft.close
  return registry

/-- The registry of the last of several units, each of which extends the one before. -/
def Registry.extendAll (config : Config) (base : Registry) (units : List String) :
    Except Error Registry :=
  units.foldlM (Registry.extend config) base

/-- What is known of the registry of a unit that extends another one and declares nothing. -/
structure Registry.Extension (config : Config) (base : Registry) (unit : String)
    (next : Registry) : Prop where
  /-- It is the registry of the unit. -/
  unit_eq : next.unit = unit
  /-- The unit extends the other one. -/
  base_eq : next.base = some base.unit
  /-- It has no private routines. -/
  privateKeys : next.privateKeys = ∅
  /-- It imports nothing. -/
  imports : next.imports = ∅
  /-- It withholds what the base withholds. -/
  withheld : next.withheld = base.withheld
  /-- It has the fields of the base. -/
  fields : next.fields = base.fields
  /-- Its keys are those that the base passes on, in order. -/
  keys : next.routines.keys = base.passedOn.map Prod.fst
  /-- Its records are those that it inherits. -/
  get?_iff : ∀ {key r'}, next.routines.get? key = some r' ↔
    ∃ r needs, base.routines.get? key = some r ∧ base.withheld.contains key = false ∧
      inheritRoutine config base key r = .ok (r', needs)

namespace Registry

variable {config : Config} {base next : Registry} {unit : String}

/-- A draft that holds nothing but what is inherited records nothing that is withheld. -/
theorem not_recordsWithheld {fields : Value} {resolution : Resolution}
    (h : resolve base fields unit config = .ok resolution) :
    resolution.draft.recordsWithheld = false := by
  obtain ⟨-, -, -, -, withheld, -⟩ := draft_of_resolve h
  unfold Draft.recordsWithheld
  rw [List.any_eq_false]
  intro key member recorded
  obtain ⟨r', stored⟩ := Table.contains_iff_exists_get?.1 recorded
  obtain ⟨-, -, -, passedOn, -⟩ := (get?_inherited_iff h).1 stored
  have isWithheld : resolution.draft.withheld.contains key = true :=
    (Table.contains_iff_exists_key _ _).2 ⟨key, member, BEq.rfl⟩
  rw [withheld, passedOn] at isWithheld
  cases isWithheld

/-- What a registry of expressions passes on can be taken over. -/
theorem Proper.exists_inheritAll (proper : base.Proper) (config : Config) :
    ∃ routines, inheritAll config base = .ok routines := by
  refine exists_mapM_eq_ok fun e member => ?_
  have recorded := Table.get?_eq_some_iff.2 ⟨e.1, (List.mem_filter.1 member).1, BEq.rfl⟩
  obtain ⟨result, inherits⟩ := (proper e.1 e.2 recorded).inheritRoutine config base e.1
  exact ⟨⟨e.1, result.1, result.2⟩, by rw [inherits]; rfl⟩

/-- Whatever fields an extension gives, what it inherits can be computed if they can be merged. -/
theorem Proper.exists_resolution (proper : base.Proper) (config : Config) (unit : String)
    {fields : Value} {merged : Table Value Value}
    (merging : mergeFields base.fields fields = .ok merged) :
    ∃ resolution, resolve base fields unit config = .ok resolution ∧
      ∃ routines, resolution.draft = inheritedDraft base unit merged routines := by
  obtain ⟨routines, inheriting⟩ := proper.exists_inheritAll config
  unfold resolve
  rw [merging, inheriting]
  exact ⟨_, rfl, routines, rfl⟩

/-- **Registries of expressions can be extended.** -/
theorem exists_extension (proper : base.Proper) (config : Config) (unit : String) :
    ∃ next, base.extend config unit = .ok next ∧ Extension config base unit next := by
  have merging : mergeFields base.fields (.tuple []) = .ok base.fields := rfl
  obtain ⟨resolution, resolved, routines, draft⟩ := proper.exists_resolution config unit merging
  have closing : resolution.draft.close =
      .ok (resolution.draft.toRegistry, { resolution.draft with closed := true }) := by
    have isOpen : resolution.draft.closed = false := by rw [draft]; rfl
    unfold Draft.close
    rw [Draft.ensureOpen_of_open isOpen]
    simp only [bind, Except.bind, not_recordsWithheld resolved]
    rfl
  have extended : base.extend config unit = .ok resolution.draft.toRegistry := by
    rw [extend, resolved]
    simp only [bind, Except.bind, closing]
    rfl
  have keys : resolution.draft.routines.keys = base.passedOn.map Prod.fst := by
    obtain ⟨routines', inheriting', entries⟩ := entries_routines resolved
    rw [← keys_inheritAll inheriting', Table.keys, entries, List.map_map]
    rfl
  obtain ⟨unit_eq, base_eq, privateKeys, imports, withheld, -⟩ := draft_of_resolve resolved
  exact ⟨_, extended, unit_eq, base_eq, privateKeys, imports, withheld, by rw [draft]; rfl, keys,
    get?_inherited_iff resolved⟩

/-- What keeps routines of an extension from being copied keeps those of the base from it. -/
theorem Extension.triggers_sub (h : Extension config base unit next) (key : Key)
    (member : (next.triggers config).contains key = true) :
    (base.triggers config).contains key = true := by
  unfold triggers at member ⊢
  rw [h.privateKeys, h.withheld] at member
  split at member
  · next delegates =>
    rw [if_pos delegates, OrderedSet.contains_union, Bool.or_eq_true]
    rw [OrderedSet.contains_union, Bool.or_eq_true] at member
    exact .inr (member.resolve_left nofun)
  · cases member

end Registry

/-! ## Settled records -/

namespace Tree

/-- A call that passes arguments on calls nothing else. -/
theorem calls_forwarder (keys : KeySet) (unit name : String) (params guards : List Tree)
    (stem : String) :
    (Tree.remoteCall unit name (forward params guards stem)).calls keys = false := by
  rw [Bool.eq_false_iff]
  intro calls
  obtain ⟨name', args, member, -⟩ := calls_iff.1 calls
  rw [walk_eq] at member
  rcases List.mem_cons.1 member with root | below
  · cases root
  · obtain ⟨v, part, inside⟩ := List.mem_flatMap.1 below
    obtain ⟨named, -, rfl⟩ := List.mem_map.1 part
    cases List.mem_singleton.1 inside

end Tree

namespace RoutineRecord

/-- A record as inheritance leaves it: named parameters, and a text that calls none of certain keys
unless a parameter falls back on such a call; then it is a forwarder to the base. -/
structure Settled (keys : KeySet) (base name : String) (r : RoutineRecord) : Prop where
  /-- Every parameter has a name. -/
  named : ∃ params guards stem, r.params = Tree.normalize params guards stem
  /-- The body calls none of the keys. -/
  body : r.body.calls keys = false
  /-- The guards call none of the keys. -/
  guards : ∀ guard ∈ r.guards, guard.calls keys = false
  /-- A routine with such a fallback value forwards its arguments to the base. -/
  relayed : r.params.any (Tree.fallbacksCall keys) = true → ∀ guards stem,
    r.body = .remoteCall base name (Tree.forward r.params guards stem)

variable {config : Config} {base : Registry} {key : Key} {r r' : RoutineRecord}
  {needs : List String} {keys : KeySet} {unit : String}

/-- **Inheritance settles every record.** -/
theorem settled_of_inheritRoutine (inherits : inheritRoutine config base key r = .ok (r', needs))
    (sub : ∀ k, keys.contains k = true → (base.triggers config).contains k = true) :
    r'.Settled keys base.unit key.name := by
  have free : ∀ {t : Tree}, t.calls (base.triggers config) = false → t.calls keys = false := by
    intro t independent
    rw [Bool.eq_false_iff] at independent ⊢
    exact fun calls => independent (Tree.calls_mono sub calls)
  rcases inheritRoutine_eq_ok inherits with rfl | ⟨independent, rfl⟩
  · refine ⟨⟨_, _, _, rfl⟩, Tree.calls_forwarder _ _ _ _ _ _, fun guard member => ?_, ?_⟩
    · have kept := (List.mem_filter.1 member).2
      exact free (by simpa using kept)
    · intro _ guards stem
      show _ = Tree.remoteCall _ _ (Tree.forward (Tree.normalize _ _ _) guards stem)
      rw [Tree.forward_normalize]
      rfl
  · rw [Tree.routineCalls, Bool.or_eq_false_iff, Bool.or_eq_false_iff] at independent
    obtain ⟨⟨inBody, inGuards⟩, inParams⟩ := independent
    have qualified : ∀ {t : Tree}, t.calls (base.triggers config) = false →
        (t.qualified base.imports).calls keys = false := by
      intro t independent
      refine free (Bool.eq_false_iff.2 fun calls => ?_)
      exact Bool.eq_false_iff.1 independent (Tree.calls_of_calls_qualified calls)
    refine ⟨⟨_, _, _, rfl⟩, qualified inBody, fun guard member => ?_, fun calls => ?_⟩
    · obtain ⟨original, isGuard, rfl⟩ := List.mem_map.1 member
      exact qualified (by simpa using List.any_eq_false.1 inGuards original isGuard)
    · -- The fallback values of a copy are fallback values of the original.
      obtain ⟨param, isParam, falls⟩ := List.any_eq_true.1 (Tree.fallbacksCall_of_normalize calls)
      obtain ⟨pattern, value, inside, valueCalls⟩ := Tree.fallbacksCall_iff.1 falls
      have falls := Tree.fallbacksCall_iff.2
          ⟨pattern, value, inside, Tree.calls_mono sub valueCalls⟩
      exact absurd falls (List.any_eq_false.1 inParams param isParam)

/-- **Inheriting a settled record again** keeps its parameters, its guards and its permission, and
its body unless it is a forwarder for the sake of a fallback value. -/
theorem Settled.again (h : r.Settled (base.triggers config) unit key.name)
    (imports : base.imports = ∅) (inherits : inheritRoutine config base key r = .ok (r', needs)) :
    r'.params = r.params ∧ r'.guards = r.guards ∧ r'.permitted = r.permitted ∧
      (r.params.any (Tree.fallbacksCall (base.triggers config)) = false → r'.body = r.body) := by
  obtain ⟨params, guards, stem, isNamed⟩ := h.named
  have named : Tree.normalize r.params r.guards config.stem = r.params := by
    rw [isNamed, Tree.normalize_normalize]
  have noGuard : r.guards.any (Tree.calls (base.triggers config)) = false :=
    List.any_eq_false.2 fun guard member => by simp [h.guards guard member]
  unfold inheritRoutine at inherits
  rw [Tree.routineCalls, h.body, noGuard, Bool.false_or, Bool.false_or] at inherits
  split at inherits
  · next relays =>
    cases inherits
    refine ⟨named, ?_, rfl, fun kept => ?_⟩
    · exact List.filter_eq_self.2 fun guard member => by simp [h.guards guard member]
    · cases kept.symm.trans relays
  · obtain rfl := copyRoutine_eq_ok inherits
    have same : Tree.qualified base.imports = id := by
      rw [imports]
      exact funext Tree.qualified_empty
    refine ⟨named, ?_, rfl, fun _ => ?_⟩
    · show r.guards.map (Tree.qualified base.imports) = r.guards
      rw [same, List.map_id]
    · show r.body.qualified base.imports = r.body
      rw [same, id]

end RoutineRecord

/-! ## Chains -/

namespace Registry

variable {config : Config} {base next near far : Registry} {unit : String} {keys : KeySet}

/-- A registry all of whose records are settled. -/
structure Settled (config : Config) (base : String) (registry : Registry) : Prop where
  /-- The unit extends the base. -/
  base_eq : registry.base = some base
  /-- It has no private routines. -/
  privateKeys : registry.privateKeys = ∅
  /-- It imports nothing. -/
  imports : registry.imports = ∅
  /-- It records expressions. -/
  proper : registry.Proper
  /-- What it withholds it does not record. -/
  apart : ∀ key r, registry.routines.get? key = some r → registry.withheld.contains key = false
  /-- Its records are settled. -/
  records : ∀ key r, registry.routines.get? key = some r →
    r.Settled (registry.triggers config) base key.name

/-- **One extension** settles everything. -/
theorem Extension.settled (h : Extension config base unit next) (proper : base.Proper) :
    next.Settled config base.unit where
  base_eq := h.base_eq
  privateKeys := h.privateKeys
  imports := h.imports
  proper key r' recorded := by
    obtain ⟨r, needs, original, -, inherits⟩ := h.get?_iff.1 recorded
    exact (proper key r original).inherit inherits
  apart key r' recorded := by
    obtain ⟨r, needs, -, passedOn, -⟩ := h.get?_iff.1 recorded
    rw [h.withheld, passedOn]
  records key r' recorded := by
    obtain ⟨r, needs, -, -, inherits⟩ := h.get?_iff.1 recorded
    exact RoutineRecord.settled_of_inheritRoutine inherits h.triggers_sub

/-- The records of two registries differ at most in their origin, and in the bodies of routines
that fall back on calls of certain keys. -/
structure Resembles (keys : KeySet) (near far : Registry) : Prop where
  /-- They record the same keys in the same order. -/
  keys_eq : far.routines.keys = near.routines.keys
  /-- They withhold the same. -/
  withheld : far.withheld = near.withheld
  /-- They have the same fields. -/
  fields : far.fields = near.fields
  /-- Their records correspond. -/
  records : ∀ {key r}, near.routines.get? key = some r →
    ∃ r', far.routines.get? key = some r' ∧ r'.params = r.params ∧ r'.guards = r.guards ∧
      r'.permitted = r.permitted ∧
      (r.params.any (Tree.fallbacksCall keys) = false → r'.body = r.body)

theorem Resembles.refl (keys : KeySet) (registry : Registry) : Resembles keys registry registry :=
  ⟨rfl, rfl, rfl, fun recorded => ⟨_, recorded, rfl, rfl, rfl, fun _ => rfl⟩⟩

theorem Resembles.trans (h : Resembles keys near base) (h' : Resembles keys base far) :
    Resembles keys near far where
  keys_eq := h'.keys_eq.trans h.keys_eq
  withheld := h'.withheld.trans h.withheld
  fields := h'.fields.trans h.fields
  records recorded := by
    obtain ⟨r₁, recorded₁, params, guards, permitted, body⟩ := h.records recorded
    obtain ⟨r₂, recorded₂, params', guards', permitted', body'⟩ := h'.records recorded₁
    exact ⟨r₂, recorded₂, params'.trans params, guards'.trans guards, permitted'.trans permitted,
      fun kept => (body' (by rwa [params])).trans (body kept)⟩

/-- **A further extension** of a settled registry resembles it. -/
theorem Settled.resembles {base' : String} (settled : base.Settled config base')
    (h : Extension config base unit next) : Resembles (base.triggers config) base next where
  keys_eq := by
    have all : base.passedOn = base.routines.entries := by
      refine List.filter_eq_self.2 fun e member => ?_
      have recorded := Table.get?_eq_some_iff.2 ⟨e.1, member, BEq.rfl⟩
      rw [settled.apart e.1 e.2 recorded]
      rfl
    rw [h.keys, all]
    rfl
  withheld := h.withheld
  fields := h.fields
  records {key r} recorded := by
    obtain ⟨⟨r', needs⟩, inherits⟩ := (settled.proper key r recorded).inheritRoutine config base key
    have recorded' := h.get?_iff.2 ⟨r, needs, recorded, settled.apart key r recorded, inherits⟩
    exact ⟨r', recorded', (settled.records key r recorded).again settled.imports inherits⟩

/-- The same calls keep the routines of all registries along a chain from being copied. -/
theorem Settled.triggers_eq {base' : String} (settled : base.Settled config base')
    (h : Extension config base unit next) : next.triggers config = base.triggers config := by
  rw [triggers, triggers, h.privateKeys, h.withheld, settled.privateKeys]

/-- **Along a chain** every registry resembles the first one. -/
theorem Settled.extendAll {base' : String} (settled : near.Settled config base')
    (units : List String) :
    ∃ far last, near.extendAll config units = .ok far ∧ far.Settled config last ∧
      Resembles (near.triggers config) near far ∧ far.triggers config = near.triggers config := by
  induction units generalizing near base' with
  | nil => exact ⟨near, base', rfl, settled, .refl _ near, rfl⟩
  | cons unit units ih =>
    obtain ⟨next, extended, extension⟩ := exists_extension settled.proper config unit
    have resembles := settled.resembles extension
    have triggers := settled.triggers_eq extension
    obtain ⟨far, last, chain, settled', resembles', triggers'⟩ :=
      ih (extension.settled settled.proper)
    refine ⟨far, last, ?_, settled', resembles.trans (triggers ▸ resembles'),
      triggers'.trans triggers⟩
    rw [Registry.extendAll, List.foldlM_cons, extended]
    exact chain

end Registry

namespace Workspace

/-- **The immediate base is enough,** up to fallback values.  Let a chain of units, each of which
extends the one before and declares nothing, start from a published unit.  The last registry has the
keys of the first one in the same order, with the same parameters, guards and permissions, and it
has the fields and the withheld keys of the published unit.  The bodies are the same, too, with one
exception: a routine with a parameter that falls back, inside of a pattern, on a call that is kept
from being copied forwards its arguments to the immediate base of the unit, and not, as in the first
registry, to the published unit. -/
theorem Reachable.extendAll_records {w : Workspace} (h : w.Reachable) {base : String}
    {registry : Registry} (published : w.store.get? base = some registry) (config : Config)
    (first : String) (rest : List String) :
    ∃ near far last, registry.extend config first = .ok near ∧
      registry.extendAll config (first :: rest) = .ok far ∧ far.base = some last ∧
      far.routines.keys = near.routines.keys ∧
      near.withheld = registry.withheld ∧ far.withheld = registry.withheld ∧
      near.fields = registry.fields ∧ far.fields = registry.fields ∧
      ∀ key r, near.routines.get? key = some r →
        ∃ r', far.routines.get? key = some r' ∧ r'.params = r.params ∧ r'.guards = r.guards ∧
          r'.permitted = r.permitted ∧
          if r.params.any (Tree.fallbacksCall (near.triggers config)) then
            ∃ args, r.body = .remoteCall registry.unit key.name args ∧
              r'.body = .remoteCall last key.name args
          else r'.body = r.body := by
  obtain ⟨s, session, -, rfl⟩ := h.coherent.published published
  obtain ⟨-, image, -, attained⟩ := h.coherent.session session
  have proper : s.draft.toRegistry.Proper := attained.proper
  obtain ⟨near, extended, extension⟩ := Registry.exists_extension proper config first
  have settled := extension.settled proper
  obtain ⟨far, last, chain, settled', resembles, triggers⟩ := settled.extendAll rest
  have whole : s.draft.toRegistry.extendAll config (first :: rest) = .ok far := by
    rw [Registry.extendAll, List.foldlM_cons, extended]
    exact chain
  refine ⟨near, far, last, extended, whole, settled'.base_eq, resembles.keys_eq,
    extension.withheld, resembles.withheld.trans extension.withheld, extension.fields,
    resembles.fields.trans extension.fields, fun key r recorded => ?_⟩
  obtain ⟨r', recorded', params, guards, permitted, body⟩ := resembles.records recorded
  refine ⟨r', recorded', params, guards, permitted, ?_⟩
  split
  · next relays =>
    have relays' : r'.params.any (Tree.fallbacksCall (far.triggers config)) = true := by
      rwa [params, triggers]
    refine ⟨Tree.forward r.params [] "", (settled.records key r recorded).relayed relays [] "", ?_⟩
    rw [(settled'.records key r' recorded').relayed relays' [] "", params]
  · next kept => exact body (by simpa using kept)

/-- What a unit passes on that withholds one routine and has two more.  One of them is called with a
tuple whose item may be left out, and falls back on the withheld one then. -/
def fallbackRegistry : Registry :=
  { unit := "base"
    routines := .ofList
      [(.ofCount "greet" 1, ⟨[.wildcard "_"], [.literal (.bool true)],
          .call "pick" [.tuple [.literal (.text "base")]], .native, false⟩),
        (.ofCount "pick" 1, ⟨[.tuplePattern [.optional (.binding "x") (.call "secret" [])]], [],
          .var "x", .native, false⟩)]
    withheld := .ofList [.ofCount "secret" 0] }

/-- The workspace in which that unit is published. -/
def fallbackWorkspace : Workspace :=
  afterAll ∅ [.openRoot {} "base" (.list []),
    .define "base" ⟨"secret", [], .literal (.text "base"), [], false, false⟩,
    .withhold "base" (.ofCount "secret" 0),
    .define "base" ⟨"greet", [.wildcard "_"], .call "pick" [.tuple [.literal (.text "base")]],
      [.literal (.bool true)], false, false⟩,
    .define "base" ⟨"pick", [.tuplePattern [.optional (.binding "x") (.call "secret" [])]],
      .var "x", [], false, false⟩,
    .finish "base"]

theorem published_fallbackWorkspace :
    fallbackWorkspace.store.get? "base" = some fallbackRegistry := by
  cbv

/-- The bodies that a chain of units records at a key, from the first unit on. -/
def bodiesAlong (key : Key) (units : List String) : Except Error (Option Tree) := do
  let registry ← fallbackRegistry.extendAll {} units
  return (registry.routines.get? key).map RoutineRecord.body

/-- After three extensions the routine without fallback values is as it was after the first. -/
theorem extendAll_records_of_fallback :
    ∃ near far r r', fallbackRegistry.extend {} "child" = .ok near ∧
      fallbackRegistry.extendAll {} ["child", "grandchild", "last"] = .ok far ∧
      far.base = some "grandchild" ∧ far.routines.keys = near.routines.keys ∧
      near.routines.get? (.ofCount "greet" 1) = some r ∧
      far.routines.get? (.ofCount "greet" 1) = some r' ∧
      r'.params = [.binding "arg_1"] ∧ r'.guards = [.literal (.bool true)] ∧
      r'.body = .call "pick" [.tuple [.literal (.text "base")]] := by
  have reachable : fallbackWorkspace.Reachable := Reachable.empty.afterAll _
  obtain ⟨near, far, last, extended, chain, isLast, keys, -, -, -, -, records⟩ :=
    Reachable.extendAll_records reachable published_fallbackWorkspace {} "child"
      ["grandchild", "last"]
  have evaluated : (fallbackRegistry.extend {} "child").map (fun near =>
        (near.routines.get? (.ofCount "greet" 1)).map fun r =>
          (r.params, r.guards, r.body, r.params.any (Tree.fallbacksCall (near.triggers {})))) =
        .ok (some ([.binding "arg_1"], [.literal (.bool true)],
          .call "pick" [.tuple [.literal (.text "base")]], false)) ∧
      (fallbackRegistry.extendAll {} ["child", "grandchild", "last"]).map Registry.base =
        .ok (some "grandchild") := by
    cbv
  obtain ⟨first, final⟩ := evaluated
  rw [extended] at first
  rw [chain] at final
  obtain ⟨r, recorded, facts⟩ := Option.map_eq_some_iff.1 (Except.ok.inj first)
  simp only [Prod.mk.injEq] at facts
  obtain ⟨params, guards, body, kept⟩ := facts
  obtain ⟨r', recorded', params', guards', -, body'⟩ := records _ r recorded
  rw [kept, if_neg Bool.false_ne_true] at body'
  exact ⟨near, far, r, r', extended, chain, Except.ok.inj final, keys, recorded, recorded',
    params'.trans params, guards'.trans guards, body'.trans body⟩

/-- **A forwarder is redirected.**  In the first unit of a chain the routine with a fallback value
forwards its arguments to the published unit, in the second one to the first. -/
theorem forwarder_redirected :
    fallbackWorkspace.store.get? "base" = some fallbackRegistry ∧
      bodiesAlong (.ofCount "pick" 1) ["child"] =
        .ok (some (.remoteCall "base" "pick" [.var "arg_1"])) ∧
      bodiesAlong (.ofCount "pick" 1) ["child", "grandchild"] =
        .ok (some (.remoteCall "child" "pick" [.var "arg_1"])) := by
  refine ⟨published_fallbackWorkspace, ?_⟩
  cbv

end Workspace

end Heredity
