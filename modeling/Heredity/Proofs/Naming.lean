import Heredity.Proofs.Declarations

/-!
# The units that a unit names

What a unit names it names by qualified calls, by its base, by its imports and by its dependencies.
If everything that a session is given names units of a certain kind only, so does everything that it
writes.

* `Tree.Within`, `Statement.Within`, `Registry.Within` — only units of a certain kind are named.
* `Moves.within` — an event that names such units only keeps a unit that does.
* `Tree.within_of_mem_expandDefaults` — a routine of a declaration names what its body and guards
  name, or its fallback values.
* `within_of_resolve` — an extension names what its base names, and the base.

**Any kind of units.**  The kind is a parameter.  "Loaded" alone would not do: a unit may well name
one that is missing, and what is to be shown is which ones these are.
-/

namespace Heredity

/-! ## Naming units -/

section Naming

variable {P : String → Prop}

/-- All qualified calls in a tree name units of a certain kind. -/
def Tree.Within (P : String → Prop) (t : Tree) : Prop := ∀ u ∈ t.remoteUnits, P u

/-- The trees that a statement brings into a unit. -/
def Statement.trees : Statement → List Tree
  | .define declaration => declaration.body :: (declaration.guards ++ declaration.params)
  | _ => []

/-- All qualified calls in a statement name units of a certain kind. -/
def Statement.Within (P : String → Prop) (s : Statement) : Prop := ∀ t ∈ s.trees, t.Within P

/-- All qualified calls in the body and the guards of a record do. -/
def RoutineRecord.Within (P : String → Prop) (r : RoutineRecord) : Prop :=
  ∀ t ∈ r.body :: r.guards, t.Within P

/-- All units that a registry names are of a certain kind. -/
structure Registry.Within (P : String → Prop) (r : Registry) : Prop where
  /-- The base. -/
  base : ∀ base, r.base = some base → P base
  /-- The units that its routines call. -/
  routines : ∀ key routine, r.routines.get? key = some routine → routine.Within P
  /-- The units that it depends on. -/
  dependencies : ∀ u, r.dependencies.contains u = true → P u
  /-- The sources of its imports. -/
  imports : ∀ key source, r.imports.get? key = some source → P source
  /-- The units that its hooks call. -/
  hooks : ∀ hook ∈ r.preHook.toList ++ r.postHook.toList, ∀ s ∈ hook, s.Within P

/-- All units that a unit names while it is written are of a certain kind. -/
structure Writing.Within (P : String → Prop) (w : Writing) : Prop where
  /-- Those that its draft names. -/
  draft : w.draft.toRegistry.Within P
  /-- Those that its image requires. -/
  requires : ∀ u, w.image.requires.contains u = true → P u

/-- All units that an event names are of a certain kind. -/
def Event.Within (P : String → Prop) : Event → Prop
  | .declare e units _ => e.record.Within P ∧ ∀ u, units.contains u = true → P u
  | .importKey _ source => P source
  | .setHooks pre post => ∀ hook ∈ pre.toList ++ post.toList, ∀ s ∈ hook, s.Within P
  | .require units => ∀ u ∈ units, P u
  | _ => True

/-- A registry without a base, in which nothing is declared yet, names nothing. -/
theorem Registry.within_root (unit : String) (fields : Table Value Value) :
    Registry.Within P { unit := unit, fields := fields } :=
  ⟨fun _ none => (nomatch none), fun _ _ none => (nomatch none), fun _ none => (nomatch none),
    fun _ _ none => (nomatch none), fun _ none => (nomatch none)⟩

theorem Registry.Within.mono {Q : String → Prop} {r : Registry} (h : r.Within P)
    (sub : ∀ u, P u → Q u) : r.Within Q where
  base u isBase := sub u (h.base u isBase)
  routines key routine recorded t member u named :=
    sub u (h.routines key routine recorded t member u named)
  dependencies u depends := sub u (h.dependencies u depends)
  imports key source isImported := sub source (h.imports key source isImported)
  hooks hook member s inside t isTree u named :=
    sub u (h.hooks hook member s inside t isTree u named)

theorem OrderedSet.forall_addAll {s : NameSet} {units : List String}
    (h : ∀ u, s.contains u = true → P u) (new : ∀ u ∈ units, P u) :
    ∀ u, (s.addAll units).contains u = true → P u := by
  intro u member
  rw [OrderedSet.contains_addAll, Bool.or_eq_true] at member
  rcases member with listed | old
  · obtain ⟨u', isIn, same⟩ := List.any_eq_true.1 listed
    exact eq_of_beq same ▸ new u' isIn
  · exact h u old

/-- **One event.**  What names units of a certain kind only does so after an event that does. -/
theorem Moves.within {w w' : Writing} {event : Event} (move : Moves w event w') (h : w.Within P)
    (event_within : event.Within P) : w'.Within P := by
  obtain ⟨draft, requires⟩ := h
  cases move with
  | declareRecorded =>
    obtain ⟨record, units⟩ := event_within
    refine ⟨{ draft with
      routines := Table.forall_insert draft.routines record
      dependencies := OrderedSet.forall_addAll draft.dependencies fun u member => ?_ }, requires⟩
    exact units u (OrderedSet.mem_toList.1 (List.mem_filter.1 member).1)
  | @grant key r writable recorded =>
    have permitted : RoutineRecord.Within P { r with permitted := true } :=
      draft.routines key r recorded
    exact ⟨{ draft with routines := Table.forall_insert draft.routines permitted }, requires⟩
  | withhold writable =>
    refine ⟨{ draft with routines := fun key routine recorded => ?_ }, requires⟩
    rw [Writing.draft_withDraft, Table.get?_erase] at recorded
    split at recorded
    · cases recorded
    · exact draft.routines key routine recorded
  | importKey =>
    exact ⟨{ draft with imports := Table.forall_insert draft.imports event_within }, requires⟩
  | setHooks => exact ⟨{ draft with hooks := event_within }, requires⟩
  | require =>
    exact ⟨draft, OrderedSet.forall_addAll requires fun u member =>
      event_within u (List.mem_filter.1 member).1⟩
  | declarePrivate | declareLocal | declareInert | skip | inherit | close | complete =>
    exact ⟨{ draft with }, requires⟩

/-! ## What becomes of trees -/

namespace Tree

variable {t : Tree}

theorem within_iff :
    t.Within P ↔ (∀ u, t.remoteUnit? = some u → P u) ∧ ∀ c ∈ t.children, c.Within P := by
  unfold Within
  rw [remoteUnits_eq]
  simp only [List.mem_append, Option.mem_toList, List.mem_flatMap]
  constructor
  · intro h
    exact ⟨fun u root => h u (.inl root), fun c part u named => h u (.inr ⟨c, part, named⟩)⟩
  · rintro ⟨root, parts⟩ u (named | ⟨c, part, named⟩)
    · exact root u named
    · exact parts c part u named

/-- A transformation that keeps parts names what the tree names, and what it makes nodes name. -/
theorem Within.transform {f : Tree → Tree} (keeps : ∀ t, (f t).children = t.children)
    (node : ∀ t u, (f t).remoteUnit? = some u → t.remoteUnit? = some u ∨ P u) (h : t.Within P) :
    (transform f t).Within P := by
  induction t using induct with
  | step t ih =>
    obtain ⟨root, parts⟩ := within_iff.1 h
    rw [transform_eq]
    refine within_iff.2 ⟨fun u named => ?_, fun c part => ?_⟩
    · rcases node _ u named with named | holds
      · refine root u ?_
        rw [← named]
        cases t <;> rfl
      · exact holds
    · rw [keeps, children_mapChildren] at part
      obtain ⟨original, isPart, rfl⟩ := List.mem_map.1 part
      exact ih original isPart (parts original isPart)

theorem Within.qualified {imports : Table Key String} (h : t.Within P)
    (sources : ∀ key source, imports.get? key = some source → P source) :
    (qualified imports t).Within P := by
  refine h.transform (children_qualifiedNode imports) fun t u named => ?_
  unfold qualifiedNode at named
  split at named
  · split at named
    · next source isImported =>
      cases named
      exact .inr (sources _ _ isImported)
    · exact .inl named
  · exact .inl named

theorem Within.bound {name : String} {base : Option String} (h : t.Within P)
    (isBase : ∀ u, base = some u → P u) : (bound name base t).Within P := by
  refine h.transform (children_boundNode name base) fun t u named => ?_
  unfold boundNode at named
  split at named
  · next base' _ =>
    cases named
    exact .inr (isBase _ rfl)
  · exact .inl named

/-- A fallback value is a part of a parameter. -/
theorem exists_optional_of_omitted {params : List Tree} {position supplied i : Nat} {value : Tree}
    (h : (i, value) ∈ omitted position supplied params) :
    ∃ pattern, .optional pattern value ∈ params := by
  induction params generalizing position supplied with
  | nil => cases h
  | cons param params ih =>
    have later : ∀ {position supplied}, (i, value) ∈ omitted position supplied params →
        ∃ pattern, .optional pattern value ∈ param :: params := fun h =>
      (ih h).imp fun _ member => List.mem_cons_of_mem _ member
    rcases optional_or_required param with ⟨pattern, fallback, rfl⟩ | ⟨-, -, -, rest, -⟩
    · cases supplied with
      | zero =>
        rcases List.mem_cons.1 h with same | h
        · cases same
          exact ⟨pattern, List.mem_cons_self⟩
        · exact later h
      | succ supplied => exact later h
    · rw [rest] at h
      exact later h

/-- A variant names what the body and the guards name, or what the parameters do. -/
theorem within_of_mem_expandDefaults {name : String} {params guards : List Tree} {body : Tree}
    {stem : String} (isBody : body.Within P) (areGuards : ∀ guard ∈ guards, guard.Within P)
    (areParams : ∀ param ∈ params, param.Within P) {v : Variant}
    (h : v ∈ expandDefaults name params guards body stem) :
    ∀ t ∈ v.body :: v.guards, t.Within P := by
  rcases List.mem_append.1 h with h | h
  · obtain ⟨supplied, -, rfl⟩ := List.mem_map.1 h
    intro t member
    obtain rfl := List.mem_singleton.1 member
    refine within_iff.2 ⟨fun _ named => (nomatch named), fun x isArg => ?_⟩
    rcases (mem_args_shorterVariant supplied params stem).1 x isArg with
      ⟨name, rfl⟩ | ⟨i, isOmitted⟩
    · exact fun _ named => nomatch named
    · obtain ⟨pattern, isParam⟩ := exists_optional_of_omitted isOmitted
      exact (within_iff.1 (areParams _ isParam)).2 x (by simp [children])
  · obtain rfl := List.mem_singleton.1 h
    exact List.forall_mem_cons.2 ⟨isBody, areGuards⟩

end Tree

/-! ## What is inherited -/

variable {config : Config} {base : Registry}

/-- The units that a copy needs are those that it names. -/
theorem within_of_copyRoutine {r r' : RoutineRecord} {needs : List String}
    (h : copyRoutine config base r = .ok (r', needs)) (registry : base.Within P)
    (record : r.Within P) : r'.Within P ∧ ∀ u ∈ needs, P u := by
  have qualified : ∀ t ∈ r.body :: r.guards, (t.qualified base.imports).Within P :=
    fun t member => (record t member).qualified registry.imports
  obtain ⟨⟨body, units⟩, ofBody, h⟩ := exists_of_bind_eq_ok h
  obtain ⟨guards, ofGuards, h⟩ := exists_of_bind_eq_ok h
  cases h
  have pairs := forall₂_of_mapM_eq_ok ofGuards
  have each : ∀ g ∈ guards, g.1.Within P ∧ ∀ u ∈ g.2.toList, P u := by
    intro g member
    obtain ⟨guard, isGuard, done⟩ := exists_left_of_forall₂ pairs member
    obtain ⟨g, units⟩ := g
    have within := qualified guard (List.mem_cons_of_mem _ isGuard)
    rw [← Tree.qualify_eq_ok done] at within
    exact ⟨within, fun u listed =>
      within u ((Tree.contains_units_iff done u).1 (OrderedSet.mem_toList.1 listed))⟩
  have within := qualified r.body List.mem_cons_self
  rw [← Tree.qualify_eq_ok ofBody] at within
  refine ⟨List.forall_mem_cons.2 ⟨within, fun t member => ?_⟩, fun u member => ?_⟩
  · obtain ⟨g, isGuard, rfl⟩ := List.mem_map.1 member
    exact (each g isGuard).1
  · rcases List.mem_append.1 member with listed | listed
    · exact within u ((Tree.contains_units_iff ofBody u).1 (OrderedSet.mem_toList.1 listed))
    · obtain ⟨g, isGuard, listed⟩ := List.mem_flatMap.1 listed
      exact (each g isGuard).2 u listed

/-- An inherited routine names what the base names, or the base itself. -/
theorem within_of_inheritRoutine {key : Key} {r r' : RoutineRecord} {needs : List String}
    (h : inheritRoutine config base key r = .ok (r', needs)) (registry : base.Within P)
    (isBase : P base.unit) (record : r.Within P) : r'.Within P ∧ ∀ u ∈ needs, P u := by
  unfold inheritRoutine at h
  split at h
  · cases h
    refine ⟨List.forall_mem_cons.2 ⟨?_, fun guard isGuard => ?_⟩, fun u listed => ?_⟩
    · refine Tree.within_iff.2 ⟨fun u named => ?_, fun x isArg => ?_⟩
      · cases named
        exact isBase
      · obtain ⟨named, -, rfl⟩ := List.mem_map.1 isArg
        exact fun _ named => nomatch named
    · exact record guard (List.mem_cons_of_mem _ (List.mem_filter.1 isGuard).1)
    · rwa [List.mem_singleton.1 listed]
  · exact within_of_copyRoutine h registry record

/-- **Inheritance.**  The draft of an extension names the units that its base names, and the
base. -/
theorem within_of_resolve {fields : Value} {unit : String} {resolution : Resolution}
    (h : resolve base fields unit config = .ok resolution) (registry : base.Within P)
    (isBase : P base.unit) : resolution.draft.toRegistry.Within P := by
  have routines : ∀ key routine, resolution.draft.routines.get? key = some routine →
      routine.Within P := by
    intro key routine recorded
    obtain ⟨r, needs, original, -, becomes⟩ := (get?_inherited_iff h).1 recorded
    exact (within_of_inheritRoutine becomes registry isBase
      (registry.routines key r original)).1
  obtain ⟨merged, inherited, -, inheriting, draft, -⟩ := resolve_eq_ok h
  rw [draft] at routines ⊢
  refine ⟨?_, routines, ?_, fun _ _ isImported => (nomatch isImported), registry.hooks⟩
  · rintro _ ⟨⟩
    exact isBase
  · refine OrderedSet.forall_addAll (fun _ none => nomatch none) fun u listed => ?_
    rcases List.mem_append.1 (List.mem_filter.1 listed).1 with old | new
    · exact registry.dependencies u (OrderedSet.mem_toList.1 old)
    · obtain ⟨i, isInherited, listed⟩ := List.mem_flatMap.1 new
      obtain ⟨⟨key, r⟩, passed, -, becomes⟩ :=
        exists_left_of_forall₂ (inheritAll_eq_ok inheriting) isInherited
      have recorded : base.routines.get? key = some r :=
        Table.get?_eq_some_iff.2 ⟨key, (List.mem_filter.1 passed).1, BEq.rfl⟩
      exact (within_of_inheritRoutine becomes registry isBase
        (registry.routines key r recorded)).2 u listed

end Naming

end Heredity
