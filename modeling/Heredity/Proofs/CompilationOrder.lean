import Mathlib.Data.List.Sort
import Heredity.Proofs.Scheduling

/-!
# The order of compilation, in full

What the schedule of definitions answers, for every set of definitions and every store.  The proofs
about one graph are those of the queue and of the search; here the graph is read off the text of the
definitions, and all three answers are told apart.

* `Definition.Names` — the ways in which a definition names a unit that it needs.
* `Definitions.Precedes` — an edge of the order: a defined unit is named by another one.
* `Definitions.LacksBase` — a base that is neither defined nor published.
* `Definitions.stopsAtBase_of_lacksBase` — definitions are added in order, up to the first one that
  lacks its base.
* `schedule_answers` — the schedule fails at an unknown base before anything else, then at a cycle,
  with a real cycle to show for it, and otherwise lists every unit after all that it needs.

**Fallback values are not looked at.**  A unit may be called by one and by nothing else; it is then
not named in the sense of this file, and the order says nothing about it.
-/

namespace Heredity

/-- A definition names a unit: as its base, as the source of an import, or by a qualified call, at
any depth, in the body or in a guard of a routine that is declared by the unit or by a hook. -/
inductive Definition.Names (d : Definition) (unit : String) : Prop where
  /-- The unit is the base. -/
  | base (isBase : d.base = some unit)
  /-- The unit is the source of an import. -/
  | source {keys : Option (List Key)} (isSource : (Value.text unit, keys) ∈ d.imports)
  /-- The unit is called. -/
  | call {statements : List Statement} {declaration : Declaration} {expr : Tree} {name : String}
      {args : List Tree}
      (place : statements = d.statements ∨ d.preHook = some statements ∨
        d.postHook = some statements)
      (declared : .define declaration ∈ statements)
      (part : expr = declaration.body ∨ expr ∈ declaration.guards)
      (called : .remoteCall unit name args ∈ expr.walk)

namespace Definition

variable {d : Definition} {unit : String}

theorem mem_allStatements {s : Statement} :
    s ∈ d.allStatements ↔ ∃ statements, (statements = d.statements ∨ d.preHook = some statements ∨
      d.postHook = some statements) ∧ s ∈ statements := by
  have ofHook : ∀ hook : Option Hook, s ∈ hook.toList.flatten ↔
      ∃ statements, hook = some statements ∧ s ∈ statements := by
    intro hook
    cases hook with
    | none => simp
    | some statements => simp
  rw [allStatements, List.mem_append, List.mem_append, ofHook, ofHook]
  constructor
  · rintro ((own | ⟨statements, isHook, member⟩) | ⟨statements, isHook, member⟩)
    · exact ⟨d.statements, .inl rfl, own⟩
    · exact ⟨statements, .inr (.inl isHook), member⟩
    · exact ⟨statements, .inr (.inr isHook), member⟩
  · rintro ⟨statements, rfl | isHook | isHook, member⟩
    · exact .inl (.inl member)
    · exact .inl (.inr ⟨statements, isHook, member⟩)
    · exact .inr ⟨statements, isHook, member⟩

theorem mem_statementExpressions {s : Statement} {expr : Tree} :
    expr ∈ statementExpressions s ↔ ∃ declaration, s = .define declaration ∧
      (expr = declaration.body ∨ expr ∈ declaration.guards) := by
  cases s with
  | define declaration => simp [statementExpressions]
  | grant key => simp [statementExpressions]
  | withhold key => simp [statementExpressions]

end Definition

theorem Tree.mem_remoteUnits {t : Tree} {unit : String} :
    unit ∈ t.remoteUnits ↔ ∃ name args, .remoteCall unit name args ∈ t.walk := by
  rw [remoteUnits, List.mem_filterMap]
  constructor
  · rintro ⟨node, inside, names⟩
    cases node with
    | remoteCall target name args =>
      cases names
      exact ⟨name, args, inside⟩
    | _ => cases names
  · rintro ⟨name, args, inside⟩
    exact ⟨_, inside, rfl⟩

theorem Value.text?_eq_some_iff {v : Value} {text : String} :
    v.text? = some text ↔ v = .text text := by
  cases v with
  | text s => simp [text?]
  | _ => simp [text?]

/-- **What the order sees** of a definition is what it names. -/
theorem Definition.mem_requirements_iff {d : Definition} {unit : String} :
    unit ∈ d.requirements ↔ d.Names unit := by
  rw [requirements, List.mem_append, List.mem_append, Option.mem_toList, List.mem_filterMap,
    List.mem_flatMap]
  constructor
  · rintro ((isBase | ⟨⟨source, keys⟩, isImport, isText⟩) | ⟨expr, isPart, called⟩)
    · exact .base isBase
    · cases Value.text?_eq_some_iff.1 isText
      exact .source isImport
    · obtain ⟨s, member, inside⟩ := List.mem_flatMap.1 isPart
      obtain ⟨statements, place, declared⟩ := mem_allStatements.1 member
      obtain ⟨declaration, rfl, part⟩ := mem_statementExpressions.1 inside
      obtain ⟨name, args, inside⟩ := Tree.mem_remoteUnits.1 called
      exact .call place declared part inside
  · rintro (isBase | isSource | ⟨place, declared, part, called⟩)
    · exact .inl (.inl isBase)
    · exact .inl (.inr ⟨_, isSource, rfl⟩)
    · refine .inr ⟨_, List.mem_flatMap.2 ⟨_, mem_allStatements.2 ⟨_, place, declared⟩, ?_⟩,
        Tree.mem_remoteUnits.2 ⟨_, _, called⟩⟩
      exact mem_statementExpressions.2 ⟨_, rfl, part⟩

namespace Definitions

variable {ds : Definitions} {store : Store} {g : Graph} {names : List String}

/-- **An edge of the order:** one unit comes before another one that names it.  Both are defined,
and they are not the same. -/
def Precedes (ds : Definitions) (t n : String) : Prop :=
  ∃ d, ds.get? n = some d ∧ d.Names t ∧ ds.contains t = true ∧ t ≠ n

/-- A path of edges from a unit back to it, with that unit at both ends. -/
def IsCycle (ds : Definitions) (path : List String) : Prop :=
  ∃ n between, path = n :: (between ++ [n]) ∧ path.IsChain ds.Precedes

/-- A defined unit has a base that is neither defined nor published. -/
def LacksBase (ds : Definitions) (store : Store) (n base : String) : Prop :=
  ∃ d, ds.get? n = some d ∧ d.base = some base ∧ ds.contains base = false ∧ store.get? base = none

theorem needs_iff_precedes {n t : String} : ds.Needs n t ↔ ds.Precedes t n := by
  simp only [Needs, Precedes, mem_needs, Definition.mem_requirements_iff]

theorem basesKnown_iff : ds.BasesKnown store ↔ ∀ n base, ¬ ds.LacksBase store n base := by
  constructor
  · rintro known n base ⟨d, found, isBase, undefined, unpublished⟩
    rcases known n d found base isBase with isDefined | isPublished
    · exact Bool.false_ne_true (undefined.symm.trans isDefined)
    · rw [unpublished] at isPublished
      cases isPublished
  · intro none n d found base isBase
    by_contra unknown
    rw [not_or, Bool.not_eq_true, Bool.not_eq_true, Option.isSome_eq_false_iff,
      Option.isNone_iff_eq_none] at unknown
    exact none n base ⟨d, found, isBase, unknown.1, unknown.2⟩

theorem checkBase_cases (store : Store) {n : String} {d : Definition}
    (found : ds.get? n = some d) :
    (∃ base, ds.LacksBase store n base ∧
        checkBase ds store n d = .error (.unresolvedBase n (.text base))) ∨
      ((∀ base, ¬ ds.LacksBase store n base) ∧ checkBase ds store n d = .ok ()) := by
  unfold checkBase
  split
  · next isRoot =>
    refine .inr ⟨?_, rfl⟩
    rintro base ⟨d', found', isBase, -⟩
    cases found.symm.trans found'
    cases isRoot.symm.trans isBase
  · next base isBase =>
    split
    · next known =>
      refine .inr ⟨?_, rfl⟩
      rintro base' ⟨d', found', isBase', undefined, unpublished⟩
      cases found.symm.trans found'
      cases isBase.symm.trans isBase'
      rw [undefined, unpublished] at known
      cases known
    · next unknown =>
      rw [Bool.or_eq_true, not_or, Bool.not_eq_true, Bool.not_eq_true, Option.isSome_eq_false_iff,
        Option.isNone_iff_eq_none] at unknown
      exact .inl ⟨base, ⟨d, found, isBase, unknown.1, unknown.2⟩, rfl⟩

/-- Adding definitions fails at one that lacks its base, and no earlier one does. -/
def StopsAtBase (ds : Definitions) (store : Store) (g : Graph) (names : List String) : Prop :=
  ∃ before n after base, names = before ++ n :: after ∧
    (∀ m ∈ before, ∀ base, ¬ ds.LacksBase store m base) ∧ ds.LacksBase store n base ∧
    addAll ds store g names = .error (.unresolvedBase n (.text base))

/-- A name that lacks no base is passed. -/
theorem StopsAtBase.cons {g' : Graph} {name : String} (h : ds.StopsAtBase store g' names)
    (known : ∀ base, ¬ ds.LacksBase store name base)
    (passes : addAll ds store g (name :: names) = addAll ds store g' names) :
    ds.StopsAtBase store g (name :: names) := by
  obtain ⟨before, n, after, base, split, earlier, lacks, failed⟩ := h
  exact ⟨name :: before, n, after, base, by rw [split]; rfl,
    List.forall_mem_cons.2 ⟨known, earlier⟩, lacks, passes.trans failed⟩

/-- **Adding definitions** stops at the first one that lacks its base, if there is one. -/
theorem stopsAtBase_of_lacksBase (g : Graph)
    (lacking : ∃ n ∈ names, ∃ base, ds.LacksBase store n base) :
    ds.StopsAtBase store g names := by
  induction names generalizing g with
  | nil =>
    obtain ⟨n, member, -⟩ := lacking
    cases member
  | cons name names ih =>
    have later : (∀ base, ¬ ds.LacksBase store name base) →
        ∃ n ∈ names, ∃ base, ds.LacksBase store n base := by
      intro known
      obtain ⟨n, member, base, lacks⟩ := lacking
      rcases List.mem_cons.1 member with rfl | member
      · exact absurd lacks (known base)
      · exact ⟨n, member, base, lacks⟩
    cases found : ds.get? name with
    | none =>
      have known : ∀ base, ¬ ds.LacksBase store name base := by
        rintro base ⟨d, found', -⟩
        cases found.symm.trans found'
      exact (ih g (later known)).cons known (by rw [addAll, found])
    | some d =>
      rcases checkBase_cases store found with ⟨base, lacks, failed⟩ | ⟨known, passed⟩
      · refine ⟨[], name, names, base, rfl, by simp, lacks, ?_⟩
        rw [addAll, found]
        dsimp only
        rw [failed]
        rfl
      · refine (ih (g.add name (ds.needs name d)) (later known)).cons known ?_
        rw [addAll, found]
        dsimp only
        rw [passed]
        rfl

theorem pairwise_sortedNames (ds : Definitions) : ds.sortedNames.Pairwise (· ≤ ·) :=
  List.pairwise_mergeSort' (· ≤ ·) ds.keys

/-- **The first unknown base.**  If some unit lacks its base, the schedule fails at the least such
unit. -/
theorem schedule_of_lacksBase (lacking : ∃ n base, ds.LacksBase store n base) :
    ∃ n base, ds.LacksBase store n base ∧
      (∀ n' base', ds.LacksBase store n' base' → n ≤ n') ∧
      ds.schedule store = .error (.unresolvedBase n (.text base)) := by
  have listed : ∀ n base, ds.LacksBase store n base → n ∈ ds.sortedNames := fun n _ lacks =>
    mem_sortedNames.2 (Table.contains_iff_exists_get?.2 (lacks.imp fun _ h => h.1))
  obtain ⟨n₀, base₀, lacks₀⟩ := lacking
  obtain ⟨before, n, after, base, split, earlier, lacks, failed⟩ :=
    stopsAtBase_of_lacksBase {} ⟨n₀, listed n₀ base₀ lacks₀, base₀, lacks₀⟩
  refine ⟨n, base, lacks, fun n' base' lacks' => ?_, ?_⟩
  · have sorted := ds.pairwise_sortedNames
    have member := listed n' base' lacks'
    rw [split] at sorted member
    rcases List.mem_append.1 member with isEarlier | member
    · exact absurd lacks' (earlier n' isEarlier base')
    rcases List.mem_cons.1 member with rfl | isLater
    · exact String.le_refl _
    · exact (List.pairwise_cons.1 (List.pairwise_append.1 sorted).2.1).1 n' isLater
  · rw [schedule, graph, failed]
    rfl

/-- Where all bases are known, the schedule is what the search and the queue make of one graph. -/
theorem schedule_of_basesKnown (known : ds.BasesKnown store) :
    ∃ g : Graph, g.Closed ∧ (∀ t n, Graph.Leads g.edges t n ↔ ds.Precedes t n) ∧
      (∀ n, g.nodes.contains n = true ↔ ds.contains n = true) ∧
      ds.schedule store =
        match g.findCycle? with
        | some path => .error (.cycle path)
        | none => .ok g.order := by
  obtain ⟨g, built, leads, nodes⟩ := graph_eq_ok known
  simp only [needs_iff_precedes] at leads
  refine ⟨g, fun a b edge => ?_, leads, nodes, ?_⟩
  · obtain ⟨d, found, -, isDefined, -⟩ := (leads a b).1 edge
    exact ⟨(nodes a).2 isDefined,
      (nodes b).2 (Table.contains_iff_exists_get?.2 ⟨d, found⟩)⟩
  · rw [schedule, built]
    simp only [bind, Except.bind]
    cases g.findCycle? <;> rfl

/-- **The order of compilation.**  If some base is neither defined nor published, the schedule fails
at the least unit that has such a base.  Otherwise it fails at a cycle exactly if the edges have
one, and the path that it reports is one.  Otherwise it lists the defined units, each once and
nothing else, and every unit after all those that precede it. -/
theorem schedule_answers (ds : Definitions) (store : Store) :
    ((∃ n base, ds.LacksBase store n base) →
      ∃ n base, ds.LacksBase store n base ∧
        (∀ n' base', ds.LacksBase store n' base' → n ≤ n') ∧
        ds.schedule store = .error (.unresolvedBase n (.text base))) ∧
    ((¬ ∃ n base, ds.LacksBase store n base) →
      ((∃ path, ds.schedule store = .error (.cycle path)) ↔
        ∃ n, Relation.TransGen ds.Precedes n n) ∧
      (∀ path, ds.schedule store = .error (.cycle path) → ds.IsCycle path) ∧
      ((¬ ∃ n, Relation.TransGen ds.Precedes n n) →
        ∃ names, ds.schedule store = .ok names ∧ names.Nodup ∧
          (∀ n, n ∈ names ↔ ds.contains n = true) ∧
          ∀ t n, ds.Precedes t n → ∃ before after, names = before ++ n :: after ∧ t ∈ before)) := by
  refine ⟨schedule_of_lacksBase, fun none => ?_⟩
  have known : ds.BasesKnown store := basesKnown_iff.2 fun n base lacks => none ⟨n, base, lacks⟩
  obtain ⟨g, closed, leads, nodes, answer⟩ := schedule_of_basesKnown known
  have same : Graph.Leads g.edges = ds.Precedes := by
    funext t n
    exact propext (leads t n)
  have acyclic : g.findCycle? = Option.none ↔ ¬ ∃ n, Relation.TransGen ds.Precedes n n := by
    rw [Graph.findCycle?_eq_none_iff closed, Graph.Acyclic, same, not_exists]
  rw [answer]
  cases found : g.findCycle? with
  | some cycle =>
    have isCycle : ds.IsCycle cycle := by
      have path := Graph.isCycle_of_findCycle? found
      rwa [Graph.IsCycle, same] at path
    have cyclic : ∃ n, Relation.TransGen ds.Precedes n n := by
      by_contra none
      cases found.symm.trans (acyclic.2 none)
    refine ⟨⟨fun _ => cyclic, fun _ => ⟨cycle, rfl⟩⟩, ?_, fun none => absurd cyclic none⟩
    rintro path ⟨⟩
    exact isCycle
  | none =>
    refine ⟨⟨?_, fun cyclic => absurd cyclic (acyclic.1 found)⟩, ?_, fun none => ?_⟩
    · rintro ⟨path, ⟨⟩⟩
    · rintro path ⟨⟩
    · have uncycled := (Graph.findCycle?_eq_none_iff closed).1 found
      have listed : ∀ n, n ∈ g.order ↔ ds.contains n = true := fun n => by
        rw [Graph.mem_order_of_acyclic closed uncycled, nodes]
      refine ⟨g.order, rfl, Graph.nodup_order closed, listed, fun t n precedes => ?_⟩
      obtain ⟨d, found, -⟩ := id precedes
      obtain ⟨before, after, split⟩ :=
        List.append_of_mem ((listed n).2 (Table.contains_iff_exists_get?.2 ⟨d, found⟩))
      exact ⟨before, after, split,
        Graph.follows_order closed before n after split t ((leads t n).2 precedes)⟩

/-- Two units that extend each other. -/
example :
    schedule (Table.ofList [("b", ⟨"b", some "a", [], [], [], none, none, []⟩),
      ("a", ⟨"a", some "b", [], [], [], none, none, []⟩)]) ∅ =
        .error (.cycle ["a", "b", "a"]) := by
  cbv

end Definitions

end Heredity
