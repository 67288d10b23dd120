import Heredity.Proofs.Derivation

/-!
# Lineages

From a published unit one gets to its base, to the base of that, and so on.  Nothing in the store
bounds that walk.  It ends because a unit is only opened on a base that has been published, and a
base is never changed.

* `Store.Climbs` — the walk as it is meant: from base to base as long as something is published,
  with no account of the units that have been passed.  A unit has such a walk only if it ends.
* `Store.Climbs.lineage_eq` — where the units of a walk are distinct, the lineage is that walk, so
  neither the bound on its steps nor the units that it leaves out play a part.
* `Workspace.PublishedBefore` — one registry was there at a moment when the unit of another one had
  not been published.
* `Store.IsForest` — every unit descends from one root, and from itself never.
* `lineage_of_published` — the lineage of a published unit, whatever commands have been executed.

**The step.**  A command publishes at most one unit, and a unit with a base only where the base is
there already (`Reachable.base_of_new`).  So the walk from a new unit is one step to a unit that was
published before, and then a walk that was there before.
-/

namespace Heredity

namespace Store

variable {s s' : Store} {unit : String} {registry : Registry} {rs : List Registry}

/-- **The walk from base to base.**  It ends at a unit that is not published, or at one that has no
base. -/
inductive Climbs (s : Store) : String → List Registry → Prop where
  /-- Nothing is published at the unit. -/
  | missing {unit : String} (unpublished : s.get? unit = none) : Climbs s unit []
  /-- The unit has no base. -/
  | root {unit : String} {registry : Registry} (published : s.get? unit = some registry)
      (isRoot : registry.base = none) : Climbs s unit [registry]
  /-- The walk goes on at the base. -/
  | up {unit base : String} {registry : Registry} {above : List Registry}
      (published : s.get? unit = some registry) (isBase : registry.base = some base)
      (rest : Climbs s base above) : Climbs s unit (registry :: above)

/-- The walk is determined by the unit. -/
theorem Climbs.unique {rs' : List Registry} (h : s.Climbs unit rs) (h' : s.Climbs unit rs') :
    rs = rs' := by
  induction h generalizing rs' with
  | missing unpublished =>
    cases h' with
    | missing => rfl
    | root published | up published => cases unpublished.symm.trans published
  | root published isRoot =>
    cases h' with
    | missing unpublished => cases published.symm.trans unpublished
    | root published' => cases published.symm.trans published'; rfl
    | up published' isBase =>
      cases published.symm.trans published'
      cases isRoot.symm.trans isBase
  | up published isBase rest ih =>
    cases h' with
    | missing unpublished => cases published.symm.trans unpublished
    | root published' isRoot =>
      cases published.symm.trans published'
      cases isRoot.symm.trans isBase
    | up published' isBase' rest' =>
      cases published.symm.trans published'
      cases isBase.symm.trans isBase'
      rw [ih rest']

/-- Every base is published. -/
def Upward (s : Store) : Prop :=
  ∀ unit base, s.Extends unit base → ∃ registry, s.get? base = some registry

/-- What is published later changes nothing about a walk. -/
theorem Climbs.mono (h : s.Climbs unit rs) (upward : s.Upward)
    (published : s.get? unit = some registry)
    (sub : ∀ u r, s.get? u = some r → s'.get? u = some r) : s'.Climbs unit rs := by
  induction h generalizing registry with
  | missing unpublished => cases unpublished.symm.trans published
  | root published' isRoot => exact .root (sub _ _ published') isRoot
  | up published' isBase rest ih =>
    obtain ⟨_, publishedBase⟩ := upward _ _ ⟨_, published', isBase⟩
    exact .up (sub _ _ published') isBase (ih publishedBase)

/-- What a walk passes is published. -/
theorem Climbs.published (h : s.Climbs unit rs)
    (named : ∀ u r, s.get? u = some r → r.unit = u) :
    ∀ r ∈ rs, s.get? r.unit = some r := by
  induction h with
  | missing => exact fun _ member => nomatch member
  | root published =>
    intro r member
    cases List.mem_singleton.1 member
    rwa [named _ _ published]
  | up published isBase rest ih =>
    refine List.forall_mem_cons.2 ⟨?_, ih⟩
    rwa [named _ _ published]

/-- Each registry on a walk is that of the base of the one before it, and the last one has no
base. -/
theorem Climbs.linked (h : s.Climbs unit rs) (upward : s.Upward)
    (named : ∀ u r, s.get? u = some r → r.unit = u) (published : s.get? unit = some registry) :
    ∃ above, rs = registry :: above ∧
      (registry :: above).IsChain (fun below above => below.base = some above.unit) ∧
      ((registry :: above).getLast (List.cons_ne_nil _ _)).base = none := by
  induction h generalizing registry with
  | missing unpublished => cases unpublished.symm.trans published
  | root published' isRoot =>
    cases published'.symm.trans published
    exact ⟨[], rfl, .singleton _, isRoot⟩
  | up published' isBase rest ih =>
    cases published'.symm.trans published
    obtain ⟨r, publishedBase⟩ := upward _ _ ⟨_, published', isBase⟩
    obtain ⟨above, rfl, chain, last⟩ := ih publishedBase
    refine ⟨r :: above, rfl, .cons_cons ?_ chain, ?_⟩
    · rw [isBase, named _ _ publishedBase]
    · rwa [List.getLast_cons_cons]

/-- **The bounded walk** that leaves out units is the walk as it is meant, as long as it has steps
left and has left out no unit that is still to come. -/
theorem Climbs.ascend_eq (h : s.Climbs unit rs) (named : ∀ u r, s.get? u = some r → r.unit = u)
    (apart : (rs.map Registry.unit).Nodup) {fuel : Nat} (enough : rs.length ≤ fuel)
    {table : Table String Registry} (ahead : ∀ r ∈ rs, table.get? r.unit = some r)
    (sub : ∀ u, s.get? u = none → table.get? u = none) :
    ascend fuel table unit = rs := by
  induction h generalizing fuel table with
  | missing unpublished =>
    cases fuel with
    | zero => rfl
    | succ fuel => rw [ascend, sub _ unpublished]
  | root published isRoot =>
    obtain ⟨fuel, rfl⟩ := Nat.exists_eq_add_of_lt enough
    have here := ahead _ List.mem_cons_self
    rw [named _ _ published] at here
    rw [ascend, here]
    dsimp only
    rw [isRoot]
  | @up unit base registry above published isBase rest ih =>
    obtain ⟨steps, rfl⟩ := Nat.exists_eq_add_of_lt enough
    have here := ahead _ List.mem_cons_self
    rw [named _ _ published] at here
    obtain ⟨other, apart⟩ := List.nodup_cons.1 apart
    rw [named _ _ published] at other
    rw [ascend, here]
    dsimp only
    rw [isBase]
    dsimp only
    rw [ih apart (Nat.le_add_right _ _)]
    · intro r member
      rw [Table.get?_erase, if_neg, ahead r (List.mem_cons_of_mem _ member)]
      intro same
      exact other (List.mem_map.2 ⟨r, member, (eq_of_beq same).symm⟩)
    · intro u unpublished
      rw [Table.get?_erase, sub u unpublished, ite_self]

/-- **The lineage** of a unit is the walk from it, if the walk passes no unit twice. -/
theorem Climbs.lineage_eq (h : s.Climbs unit rs) (named : ∀ u r, s.get? u = some r → r.unit = u)
    (apart : (rs.map Registry.unit).Nodup) : s.lineage unit = rs := by
  have passed := h.published named
  refine h.ascend_eq named apart ?_ passed fun _ unpublished => unpublished
  -- Each unit that is passed is a key of the table of its own.
  have keys : rs.map Registry.unit ⊆ s.published.keys := by
    intro u member
    obtain ⟨r, passes, rfl⟩ := List.mem_map.1 member
    obtain ⟨u', isKey, same⟩ := (Table.contains_iff_exists_key s.published r.unit).1
      (Table.contains_iff_exists_get?.2 ⟨r, passed r passes⟩)
    exact eq_of_beq same ▸ isKey
  have fewer := (apart.subperm keys).length_le
  rwa [List.length_map, Table.keys, List.length_map] at fewer

/-- A root is published and has no base. -/
def IsRoot (s : Store) (unit : String) : Prop :=
  ∃ registry, s.get? unit = some registry ∧ registry.base = none

/-- **The published units form a forest** under their bases. -/
structure IsForest (s : Store) : Prop where
  /-- Every base is published. -/
  upward : s.Upward
  /-- No unit descends from itself. -/
  acyclic : ∀ unit, ¬ Relation.TransGen s.Extends unit unit
  /-- Every unit descends from exactly one root, or is one. -/
  rooted : ∀ unit registry, s.get? unit = some registry →
    ∃! root, s.IsRoot root ∧ Relation.ReflTransGen s.Extends unit root

/-- A unit has one base at most. -/
theorem rightUnique_extends (s : Store) : Relator.RightUnique s.Extends := by
  rintro unit base base' ⟨registry, published, isBase⟩ ⟨registry', published', isBase'⟩
  cases published.symm.trans published'
  exact Option.some.inj (isBase.symm.trans isBase')

/-- One gets no further than a root. -/
theorem IsRoot.eq_of_descends {root ancestor : String} (h : s.IsRoot root)
    (descends : Relation.ReflTransGen s.Extends root ancestor) : ancestor = root := by
  rcases Relation.ReflTransGen.cases_head descends with same | ⟨base, extends', -⟩
  · exact same.symm
  · obtain ⟨registry, published, isRoot⟩ := h
    obtain ⟨registry', published', isBase⟩ := extends'
    cases published.symm.trans published'
    cases isRoot.symm.trans isBase

/-- The walk from an ancestor is shorter. -/
theorem Climbs.shorter {ancestor : String} (descends : Relation.TransGen s.Extends unit ancestor) :
    ∀ rs, s.Climbs unit rs → ∃ rs', s.Climbs ancestor rs' ∧ rs'.length < rs.length := by
  have step : ∀ {unit base : String}, s.Extends unit base → ∀ rs, s.Climbs unit rs →
      ∃ rs', s.Climbs base rs' ∧ rs'.length < rs.length := by
    rintro unit base ⟨registry, published, isBase⟩ rs h
    cases h with
    | missing unpublished => cases published.symm.trans unpublished
    | root published' isRoot =>
      cases published.symm.trans published'
      cases isBase.symm.trans isRoot
    | up published' isBase' rest =>
      cases published.symm.trans published'
      cases isBase.symm.trans isBase'
      exact ⟨_, rest, Nat.lt_succ_self _⟩
  induction descends with
  | single link => exact step link
  | tail _ link ih =>
    intro rs h
    obtain ⟨rs', h', less⟩ := ih rs h
    obtain ⟨rs'', h'', less'⟩ := step link rs' h'
    exact ⟨rs'', h'', less'.trans less⟩

/-- A walk through published units gets to a root. -/
theorem Climbs.exists_root (h : s.Climbs unit rs) (upward : s.Upward)
    (published : s.get? unit = some registry) :
    ∃ root, s.IsRoot root ∧ Relation.ReflTransGen s.Extends unit root := by
  induction h generalizing registry with
  | missing unpublished => cases unpublished.symm.trans published
  | root published' isRoot => exact ⟨_, ⟨_, published', isRoot⟩, .refl⟩
  | up published' isBase rest ih =>
    obtain ⟨_, publishedBase⟩ := upward _ _ ⟨_, published', isBase⟩
    obtain ⟨root, isRoot, descends⟩ := ih publishedBase
    exact ⟨root, isRoot, .head ⟨_, published', isBase⟩ descends⟩

/-- Where every walk from a published unit ends, the units form a forest. -/
theorem isForest_of_climbs (upward : s.Upward)
    (climbs : ∀ unit registry, s.get? unit = some registry → ∃ rs, s.Climbs unit rs) :
    s.IsForest where
  upward := upward
  acyclic unit descends := by
    obtain ⟨_, ⟨registry, published, -⟩, -⟩ := Relation.TransGen.head'_iff.1 descends
    obtain ⟨rs, h⟩ := climbs unit registry published
    obtain ⟨rs', h', less⟩ := Climbs.shorter descends rs h
    cases h.unique h'
    exact Nat.lt_irrefl _ less
  rooted unit registry published := by
    obtain ⟨rs, h⟩ := climbs unit registry published
    obtain ⟨root, isRoot, descends⟩ := h.exists_root upward published
    refine ⟨root, ⟨isRoot, descends⟩, fun root' ⟨isRoot', descends'⟩ => ?_⟩
    rcases Relation.ReflTransGen.total_of_right_unique s.rightUnique_extends descends descends' with
      further | further
    · exact isRoot.eq_of_descends further
    · exact (isRoot'.eq_of_descends further).symm

end Store

namespace Workspace

variable {w : Workspace} {unit : String} {registry : Registry}

/-- **A new unit stands on an old one.**  If a command publishes a unit that has a base, the base
has been published before. -/
theorem Reachable.base_of_new (h : w.Reachable) {command : Command} {base : String}
    (published : (w.after command).store.get? unit = some registry)
    (new : w.store.get? unit = none) (isBase : registry.base = some base) :
    ∃ r, w.store.get? base = some r := by
  have coherent := h.coherent
  have old : (w.after command).store = w.store → False := by
    intro store
    rw [store, new] at published
    cases published
  rcases coherent.changes command with same | ⟨-, -, store, -⟩ | ⟨-, -, store, -, -, -, -⟩ |
    @⟨s, b, events, working, runs, -, -, -, store | ⟨-, -, -, store⟩⟩
  -- Only the last case, a session that is finished, writes the store.
  · exact (old (by rw [same])).elim
  · exact (old store).elim
  · exact (old store).elim
  · exact (old store).elim
  · obtain ⟨-, image, held, -⟩ := coherent.session working
    obtain ⟨image', -, trace⟩ := coherent.shown_after working held runs
    have written : b.session.draft.toRegistry = registry := by
      rw [store, Store.get?, Table.get?_insert] at published
      split at published
      · exact Option.some.inj published
      · cases new.symm.trans published
    have isBase' : s.draft.base = some base := by
      rw [← isBase, ← written]
      exact trace.base_eq.symm
    obtain ⟨r, publishedBase, -⟩ := h.extends_base working isBase'
    exact ⟨r, publishedBase⟩

/-- One registry is published before another one, in the course of commands: at some moment it is
there, and nothing is published at the unit of the other one. -/
def PublishedBefore (commands : List Command) (earlier later : Registry) : Prop :=
  ∃ before after, commands = before ++ after ∧
    (afterAll ∅ before).store.get? earlier.unit = some earlier ∧
    (afterAll ∅ before).store.get? later.unit = none

theorem PublishedBefore.concat {commands : List Command} {earlier later : Registry}
    (h : PublishedBefore commands earlier later) (command : Command) :
    PublishedBefore (commands ++ [command]) earlier later := by
  obtain ⟨before, after, rfl, published, unpublished⟩ := h
  exact ⟨before, after ++ [command], List.append_assoc _ _ _, published, unpublished⟩

/-- A unit is not published before itself. -/
theorem PublishedBefore.unit_ne {commands : List Command} {earlier later : Registry}
    (h : PublishedBefore commands earlier later) : later.unit ≠ earlier.unit := by
  obtain ⟨before, -, -, published, unpublished⟩ := h
  intro same
  rw [same, published] at unpublished
  cases unpublished

theorem afterAll_concat (w : Workspace) (commands : List Command) (command : Command) :
    w.afterAll (commands ++ [command]) = (w.afterAll commands).after command :=
  w.afterAll_append commands [command]

/-- The bases of published units are published. -/
theorem Reachable.upward (h : w.Reachable) : w.store.Upward := by
  rintro unit base ⟨_, published, isBase⟩
  obtain ⟨s, session, -, rfl⟩ := h.coherent.published published
  obtain ⟨r, publishedBase, -⟩ := h.extends_base session isBase
  exact ⟨r, publishedBase⟩

/-- **The walk from a published unit** ends, and every registry on it was published before all those
below it. -/
theorem exists_climbs {commands : List Command}
    (published : (afterAll ∅ commands).store.get? unit = some registry) :
    ∃ above, (afterAll ∅ commands).store.Climbs unit (registry :: above) ∧
      (registry :: above).Pairwise fun below above => PublishedBefore commands above below := by
  induction commands using List.reverseRecOn generalizing unit registry with
  | nil => cases published
  | append_singleton commands command ih =>
    have reachable := Reachable.empty.afterAll commands
    have coherent := reachable.coherent
    have grows : ∀ u r, (afterAll ∅ commands).store.get? u = some r →
        (afterAll ∅ (commands ++ [command])).store.get? u = some r := by
      intro u r
      rw [afterAll_concat]
      exact coherent.store_after
    cases before : (afterAll ∅ commands).store.get? unit with
    | some r =>
      cases (grows unit r before).symm.trans published
      obtain ⟨above, climbs, ordered⟩ := ih before
      exact ⟨above, climbs.mono reachable.upward before grows,
        ordered.imp fun before => before.concat command⟩
    | none =>
      have named : registry.unit = unit :=
        ((reachable.afterAll [command]).coherent.published_unit
          (by rw [← afterAll_append]; exact published))
      cases isBase : registry.base with
      | none => exact ⟨[], .root published isBase, List.pairwise_singleton _ _⟩
      | some base =>
        have published' := published
        rw [afterAll_concat] at published'
        obtain ⟨r, publishedBase⟩ := reachable.base_of_new published' before isBase
        obtain ⟨above, climbs, ordered⟩ := ih publishedBase
        have there := climbs.published fun u r published => coherent.published_unit published
        refine ⟨r :: above, .up published isBase (climbs.mono reachable.upward publishedBase grows),
          List.pairwise_cons.2 ⟨?_, ordered.imp fun before => before.concat command⟩⟩
        -- The whole walk from the base was there before the command, and the unit was not.
        intro above member
        refine ⟨commands, [command], rfl, there _ member, ?_⟩
        rw [named]
        exact before

/-- **Lineages.**  Whatever commands have been executed, failing ones included, the lineage of a
published unit is the walk from base to base, which ends.  It starts with the registry of the unit,
passes no unit twice, goes from each registry to that of its base, which was published before, and
stops at a root.  The published units form a forest. -/
theorem lineage_of_published {commands : List Command} {unit : String} {registry : Registry}
    (published : (afterAll ∅ commands).store.get? unit = some registry) :
    (∃ above, (afterAll ∅ commands).store.lineage unit = registry :: above ∧
      (afterAll ∅ commands).store.Climbs unit (registry :: above) ∧
      registry.unit = unit ∧ ((registry :: above).map Registry.unit).Nodup ∧
      (registry :: above).IsChain (fun below above => below.base = some above.unit) ∧
      (registry :: above).Pairwise (fun below above => PublishedBefore commands above below) ∧
      ((registry :: above).getLast (List.cons_ne_nil _ _)).base = none) ∧
    (afterAll ∅ commands).store.IsForest := by
  have reachable := Reachable.empty.afterAll commands
  have named : ∀ u r, (afterAll ∅ commands).store.get? u = some r → r.unit = u :=
    fun u r published => reachable.coherent.published_unit published
  refine ⟨?_, Store.isForest_of_climbs reachable.upward fun unit registry published =>
    (exists_climbs published).imp' _ fun above h => h.1⟩
  obtain ⟨above, climbs, ordered⟩ := exists_climbs published
  obtain ⟨above', same, chain, last⟩ := climbs.linked reachable.upward named published
  cases same
  have apart : ((registry :: above).map Registry.unit).Nodup :=
    List.pairwise_map.2 (ordered.imp fun before => before.unit_ne)
  exact ⟨above, climbs.lineage_eq named apart, climbs, named _ _ published, apart, chain, ordered,
    last⟩

/-- The commands of sessions that work in turns.  The first unit is opened again when it has been
published, the third one is opened too early and then again, and the second one fails to be
published twice. -/
def interleavedCommands : List Command :=
  [.openRoot {} "top" (.list []),
    .openRoot {} "other" (.list []),
    .openExtension {} "bottom" "middle" (.list []),
    .finish "top",
    .openExtension {} "middle" "top" (.list []),
    .define "other" ⟨"f", [], .literal (.int 1), [], false, false⟩,
    .openRoot {} "top" (.list []),
    .finish "middle",
    .openExtension {} "bottom" "middle" (.list []),
    .finish "other",
    .finish "middle",
    .finish "bottom"]

/-- The third unit stands on the second one, and that on the first. -/
theorem lineage_of_interleavedCommands :
    ((afterAll ∅ interleavedCommands).store.get? "bottom").isSome = true ∧
      ((afterAll ∅ interleavedCommands).store.lineage "bottom").map Registry.unit =
        ["bottom", "middle", "top"] ∧
      (((afterAll ∅ interleavedCommands).store.lineage "bottom").map Registry.unit).Nodup ∧
      ((afterAll ∅ interleavedCommands).store.lineage "bottom").Pairwise
        (fun below above => PublishedBefore interleavedCommands above below) ∧
      (afterAll ∅ interleavedCommands).store.IsForest := by
  obtain ⟨isPublished, units⟩ :
      ((afterAll ∅ interleavedCommands).store.get? "bottom").isSome = true ∧
        ((afterAll ∅ interleavedCommands).store.lineage "bottom").map Registry.unit =
          ["bottom", "middle", "top"] := by
    cbv
  obtain ⟨registry, published⟩ := Option.isSome_iff_exists.1 isPublished
  obtain ⟨⟨above, lineage, -, -, apart, -, ordered, -⟩, forest⟩ := lineage_of_published published
  refine ⟨isPublished, units, ?_, ?_, forest⟩
  · rw [lineage]
    exact apart
  · rw [lineage]
    exact ordered

end Workspace

end Heredity
