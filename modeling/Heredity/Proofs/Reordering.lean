import Mathlib
import Heredity.Proofs.Compilation
import Heredity.Proofs.Locality

/-!
# Compiling in another order

Definitions are compiled one after the other, in an order in which every unit follows its base and
the sources of its imports.  There are many such orders, and they all have the same outcome.

* `Definition.sources` — the units from which a definition takes something over.
* `Site.SameAt` — two sites hold the same registry and the same image of a unit.
* `Definition.Course` — how a definition is compiled, if nothing fails.
* `Course.sameAt` — compiling reads the registries of the sources only.
* `Course.elsewhere` — compiling writes nothing but the registry and the image of its unit.
* `Definitions.Ordered` — no unit stands before one of its sources.
* `Definitions.compileEach_sameAt_of_perm` — if compilation completes in two such orders, every unit
  has the same registry and the same image in the end.

**A unit is compared with its final surroundings.**  In one order many units are compiled between a
unit and its sources, in the other none.  But a source is published before the unit is compiled and
never again, so what the unit reads is what the sources have in the end
(`Compiles.exists_compile`), and the ends can be compared unit by unit along one of the orders.
-/

namespace Heredity

open Step (exec)

/-- Two sites hold the same registry of a unit, and the same image. -/
structure Site.SameAt (site : Site) (unit : String) (site' : Site) : Prop where
  /-- The registries are the same, if the unit is published. -/
  registry : site'.store.get? unit = site.store.get? unit
  /-- The images are the same, if the unit is loaded. -/
  image : site'.program.units.get? unit = site.program.units.get? unit

namespace Site.SameAt

variable {site site' site'' : Site} {unit : String}

theorem refl (site : Site) (unit : String) : site.SameAt unit site := ⟨rfl, rfl⟩

theorem symm (h : site.SameAt unit site') : site'.SameAt unit site :=
  ⟨h.registry.symm, h.image.symm⟩

theorem trans (h : site.SameAt unit site') (h' : site'.SameAt unit site'') :
    site.SameAt unit site'' :=
  ⟨h'.registry.trans h.registry, h'.image.trans h.image⟩

end Site.SameAt

/-! ## Compiling one unit -/

/-- A unit that has just been opened looks the same wherever it was opened. -/
theorem Site.openingBench_alike (site site' : Site) (config : Config) (draft : Draft) :
    (site.openingBench config draft).Alike draft.unit (site'.openingBench config draft) where
  unit := rfl
  session := rfl
  image := (site'.openingBench_shows config draft).2.trans
    (site.openingBench_shows config draft).2.symm

namespace Definition

variable {config : Config} {d : Definition} {site site' out out' : Site}
  {registry registry' : Registry}

/-- The units from which a definition takes something over: its base, and the sources of its
imports. -/
def sources (d : Definition) : List String :=
  d.base.toList ++ d.imports.filterMap fun i => i.1.text?

/-- The bench on which a definition is executed when its unit has been opened. -/
inductive Opened (config : Config) (d : Definition) (site : Site) : Bench → Prop where
  /-- A root has its fields. -/
  | root {fields : Table Value Value} (isRoot : d.base = none)
      (merged : mergeFields ∅ (.map d.fields) = .ok fields) :
      Opened config d site (site.openingBench config { unit := d.name, fields := fields })
  /-- An extension has what it inherits in place. -/
  | extension {base : String} {registry : Registry} {resolution : Resolution} {b : Bench}
      (isBase : d.base = some base) (published : site.store.get? base = some registry)
      (resolved : resolve registry (.map d.fields) d.name config = .ok resolution)
      (put : exec (Session.materialize site.store resolution.emissions)
        (site.openingBench config resolution.draft) = (.ok ⟨⟩, b)) :
      Opened config d site b

/-- A unit that is opened was not loaded before. -/
theorem opened_of_openUnit {s : Session} (done : exec (d.openUnit config) site = (.ok s, out)) :
    site.program.contains d.name = false ∧
      ∃ b, Opened config d site b ∧ s = b.session ∧ out = site.withBench b := by
  unfold openUnit at done
  cases isBase : d.base with
  | none =>
    rw [isBase] at done
    dsimp only at done
    rcases site.exec_openRoot_cases config d.name (.map d.fields) with
      ⟨error, failed, -⟩ | ⟨merged, unloaded, opened⟩
    · cases failed.symm.trans done
    · cases opened.symm.trans done
      exact ⟨unloaded, _, .root isBase (Site.mergeFields_of_openRoot (by rw [opened])), rfl, rfl⟩
  | some base =>
    rw [isBase] at done
    dsimp only at done
    rcases site.exec_openExtension_cases config d.name base (.map d.fields) with
      ⟨error, failed, -⟩ | ⟨registry, resolution, result, b, published, resolved, unloaded, put,
        opened⟩
    · cases failed.symm.trans done
    · rw [(draft_of_resolve resolved).1] at unloaded
      rw [opened] at done
      cases result with
      | error error => cases done
      | ok _ =>
        cases done
        exact ⟨unloaded, b, .extension isBase published resolved put, rfl, rfl⟩

theorem Opened.alone {b : Bench} (h : Opened config d site b) : b.Alone site d.name := by
  cases h with
  | @root fields =>
    let draft : Draft := { unit := d.name, fields := fields }
    exact site.openingBench_alone config draft
  | extension _ _ resolved put =>
    have alone := Site.alone_of_materialize put
    rwa [(draft_of_resolve resolved).1] at alone

/-- **Opening** reads the registry of the base only. -/
theorem Opened.alike {b b' : Bench} (h : Opened config d site b) (h' : Opened config d site' b')
    (same : ∀ t ∈ d.sources, site'.store.get? t = site.store.get? t) : b.Alike d.name b' := by
  cases h with
  | @root fields isRoot merged =>
    cases h' with
    | root _ merged' =>
      cases merged.symm.trans merged'
      let draft : Draft := { unit := d.name, fields := fields }
      exact site.openingBench_alike site' config draft
    | extension isBase => cases isRoot.symm.trans isBase
  | @extension base _ resolution _ isBase published resolved put =>
    cases h' with
    | root isRoot => cases isRoot.symm.trans isBase
    | extension isBase' published' resolved' put' =>
      cases isBase.symm.trans isBase'
      have isSource : base ∈ d.sources := List.mem_append_left _ (by rw [isBase]; exact .head _)
      cases published'.symm.trans ((same base isSource).trans published)
      cases resolved.symm.trans resolved'
      have alike := site.openingBench_alike site' config resolution.draft
      rw [(draft_of_resolve resolved).1] at alike
      exact (Session.materialize_agrees _ _ _ alike put put').2

theorem declareAll_performs (d : Definition) (store : Store) :
    Step.Performs (fun event => event.isOwn = true) (d.declareAll store) := by
  have statements : Step.Performs (fun event => event.isOwn = true)
      (d.statements.forM (Session.run store false)) :=
    .forM fun statement _ => Session.run_performs store false statement
  refine Step.Performs.bind (.forM fun i _ => ?_) fun _ => ?_
  · refine (Session.importRoutines_performs store i.1 i.2).mono ?_
    rintro _ ⟨key, unit, rfl⟩
    rfl
  · split
    · exact ((Session.setHooks_performs _ _).mono fun _ h => h ▸ rfl).bind fun _ => statements
    · exact statements

/-- **Declaring** reads the registries of the sources of the imports only. -/
theorem declareAll_agrees {store store' : Store}
    (same : ∀ t ∈ d.sources, store'.get? t = store.get? t) :
    Step.Agree d.name (d.declareAll store) (d.declareAll store') := by
  have statements : Step.Agree d.name (d.statements.forM (Session.run store false))
      (d.statements.forM (Session.run store' false)) :=
    .forM fun statement _ => Session.run_agrees store store' false statement
  have unseen := Bench.unseen_alike d.name
  refine Step.Agree.bind (.forM fun i isImport => ?_) fun _ => ?_
  · refine (Session.importRoutines_matches unseen (fun t isText => same t ?_) i.2).agree
    exact List.mem_append_right _ (List.mem_filterMap.2 ⟨i, isImport, by rw [isText]; rfl⟩)
  · split
    · exact (Session.setHooks_matches unseen _ _).agree.bind fun _ => statements
    · exact statements

/-- **How a definition is compiled,** if nothing fails: the benches are those of the session when
the unit has been opened, when everything has been declared, and when the session has been
closed. -/
structure Course (config : Config) (d : Definition) (site : Site) (opened declared closed : Bench)
    (registry : Registry) (out : Site) : Prop where
  /-- The unit was not loaded before. -/
  unloaded : site.program.contains d.name = false
  /-- It is opened. -/
  opening : Opened config d site opened
  /-- Everything is declared. -/
  declaring : exec (d.declareAll site.store) opened = (.ok ⟨⟩, declared)
  /-- The session is closed. -/
  closing : exec Session.close declared = (.ok registry, closed)
  /-- The registry bears the name of the unit. -/
  unit : registry.unit = d.name
  /-- No other image was written. -/
  alone : closed.Alone site d.name
  /-- The unit was not published before. -/
  unpublished : site.store.get? d.name = none
  /-- Its registry is published. -/
  publishing : out =
    { site.withBench closed with store := ⟨site.store.published.insert d.name registry⟩ }

/-- A definition that is compiled has been opened, executed, closed and published. -/
theorem exists_course (done : exec (d.compile config) site = (.ok registry, out)) :
    ∃ opened declared closed, Course config d site opened declared closed registry out := by
  obtain ⟨s, site₁, first, -⟩ := Step.exists_of_exec_bind_eq_ok done
  obtain ⟨unloaded, b, opened, rfl, rfl⟩ := opened_of_openUnit first
  rw [exec_compile_of_open first] at done
  cases declaring : exec (d.declareAll site.store) b with
  | mk result b₁ =>
    rw [declaring] at done
    cases result with
    | error error => cases done
    | ok _ =>
      have alone₁ : b₁.Alone site d.name := by
        obtain ⟨events, runs, -⟩ := d.declareAll_performs site.store b opened.alone.loaded
        rw [declaring] at runs
        exact opened.alone.runs runs
      dsimp only at done
      rcases Session.close_runs alone₁.loaded with
        ⟨error, failed, -⟩ | ⟨_, _, -, -, failed, -⟩ | ⟨registry₁, b₂, closing, runs, -, written⟩
      · rw [failed] at done
        cases done
      · rw [failed] at done
        cases done
      have alone₂ := alone₁.runs runs
      have unit : registry₁.unit = d.name := by
        rw [← written]
        exact alone₂.unit
      rw [closing] at done
      dsimp only at done
      rcases Workspace.exec_publish_cases registry₁ (site.withBench b₂) with
        ⟨error, refused, -⟩ | ⟨unpublished, published⟩
      · cases refused.symm.trans done
      · cases published.symm.trans done
        rw [unit] at unpublished ⊢
        exact ⟨b, b₁, b₂, unloaded, opened, declaring, closing, unit, alone₂, unpublished, rfl⟩

namespace Course

variable {b b₁ b₂ b' b₁' b₂' : Bench}

/-- The registry is published. -/
theorem published (h : Course config d site b b₁ b₂ registry out) :
    out.store.get? d.name = some registry := by
  rw [h.publishing, Store.get?, Table.get?_insert, if_pos BEq.rfl]

/-- The unit is loaded. -/
theorem isLoaded (h : Course config d site b b₁ b₂ registry out) :
    out.program.contains d.name = true := by
  obtain ⟨image, held⟩ := h.alone.loaded
  rw [h.alone.unit] at held
  rw [h.publishing]
  exact Table.contains_iff_exists_get?.2 ⟨image, held⟩

/-- **Compiling writes its own unit only.** -/
theorem elsewhere (h : Course config d site b b₁ b₂ registry out) {u : String}
    (other : u ≠ d.name) : site.SameAt u out := by
  rw [h.publishing]
  refine ⟨?_, h.alone.elsewhere u other⟩
  rw [Store.get?, Table.get?_insert, if_neg fun same => other (eq_of_beq same).symm]
  rfl

/-- **Compiling reads its sources only.**  On two sites that have published the same registries of
them, it publishes the same registry and leaves the same image. -/
theorem sameAt (h : Course config d site b b₁ b₂ registry out)
    (h' : Course config d site' b' b₁' b₂' registry' out')
    (same : ∀ t ∈ d.sources, site'.store.get? t = site.store.get? t) : out.SameAt d.name out' := by
  have opened := h.opening.alike h'.opening same
  have declared := (declareAll_agrees same opened h.declaring h'.declaring).2
  obtain ⟨registries, closed⟩ := Session.close_agrees declared h.closing h'.closing
  refine ⟨by rw [h.published, h'.published, registries], ?_⟩
  rw [h.publishing, h'.publishing]
  exact closed.image

end Course

end Definition

/-! ## Compiling one unit after the other -/

/-- Definitions are compiled one after the other, and none of them fails. -/
inductive Compiles (config : Config) : Site → List Definition → Site → Prop where
  /-- There is nothing to compile. -/
  | nil (site : Site) : Compiles config site [] site
  /-- A definition, and then the rest. -/
  | cons {site site' out : Site} {d : Definition} {ds : List Definition} {registry : Registry}
      (first : exec (d.compile config) site = (.ok registry, site'))
      (rest : Compiles config site' ds out) : Compiles config site (d :: ds) out

/-- **An order of compilation.**  Every unit follows its base and the sources of its imports, as far
as they are compiled: neither the unit itself nor any unit behind it is one of them. -/
structure Definitions.Ordered (ds : List Definition) : Prop where
  /-- No unit is a source of itself. -/
  itself : ∀ d ∈ ds, d.name ∉ d.sources
  /-- No unit stands before one of its sources. -/
  follows : ds.Pairwise fun d later => later.name ∉ d.sources

/-- The sources of a unit that are compiled, are compiled before it. -/
theorem Definitions.Ordered.before {done rest : List Definition} {d : Definition}
    (h : Ordered (done ++ d :: rest)) {t : String} (isSource : t ∈ d.sources) :
    t ∉ (d :: rest).map Definition.name := by
  intro behind
  obtain ⟨e, member, rfl⟩ := List.mem_map.1 behind
  rcases List.mem_cons.1 member with rfl | later
  · exact h.itself e (List.mem_append_right _ List.mem_cons_self) isSource
  · have follows := (List.pairwise_append.1 h.follows).2.1
    exact List.rel_of_pairwise_cons follows later isSource

namespace Compiles

variable {config : Config} {site site' out out' : Site} {d : Definition} {ds ds' : List Definition}

theorem append_inv (h : Compiles config site (ds ++ ds') out) :
    ∃ middle, Compiles config site ds middle ∧ Compiles config middle ds' out := by
  induction ds generalizing site with
  | nil => exact ⟨site, .nil site, h⟩
  | cons d ds ih =>
    cases h with
    | cons first rest =>
      obtain ⟨middle, front, back⟩ := ih rest
      exact ⟨middle, .cons first front, back⟩

/-- What is not compiled stays as it is. -/
theorem elsewhere (h : Compiles config site ds out) {u : String}
    (other : u ∉ ds.map Definition.name) : site.SameAt u out := by
  induction h with
  | nil site => exact .refl site u
  | cons first _ ih =>
    rw [List.map_cons, List.mem_cons, not_or] at other
    obtain ⟨_, _, _, course⟩ := Definition.exists_course first
    exact (course.elsewhere other.1).trans (ih other.2)

/-- No unit was loaded before it is compiled, and none is compiled twice. -/
theorem unloaded (h : Compiles config site ds out) :
    (ds.map Definition.name).Nodup ∧
      ∀ u ∈ ds.map Definition.name, site.program.contains u = false := by
  induction h with
  | nil site => exact ⟨.nil, fun _ none => nomatch none⟩
  | @cons site site' out d ds registry first _ ih =>
    obtain ⟨_, _, _, course⟩ := Definition.exists_course first
    have other : ∀ u ∈ ds.map Definition.name, u ≠ d.name := by
      rintro u member rfl
      cases (ih.2 _ member).symm.trans course.isLoaded
    refine ⟨List.nodup_cons.2 ⟨fun member => other _ member rfl, ih.1⟩, fun u member => ?_⟩
    rcases List.mem_cons.1 member with rfl | later
    · exact course.unloaded
    · have still := (course.elsewhere (other u later)).image
      have free := ih.2 u later
      rw [Program.contains, ← Table.get?_eq_none_iff] at free ⊢
      exact still.symm.trans free

/-- What is compiled is published and loaded in the end. -/
theorem exists_published (h : Compiles config site ds out) (member : d ∈ ds) :
    ∃ registry image, out.store.get? d.name = some registry ∧
      out.program.units.get? d.name = some image := by
  induction h with
  | nil => cases member
  | @cons site site' out d' ds registry first rest ih =>
    rcases List.mem_cons.1 member with rfl | later
    · obtain ⟨_, _, _, course⟩ := Definition.exists_course first
      have final := rest.elsewhere (List.nodup_cons.1 (Compiles.cons first rest).unloaded.1).1
      obtain ⟨image, held⟩ := Table.contains_iff_exists_get?.1 course.isLoaded
      exact ⟨registry, image, final.registry.trans course.published, final.image.trans held⟩
    · exact ih later

/-- **Each in its final surroundings.**  In an order of compilation, what a unit reads of its
sources is what they have published in the end, and its own registry and image stay until the
end. -/
theorem exists_compile (h : Compiles config site ds out) (ordered : Definitions.Ordered ds)
    (member : d ∈ ds) :
    ∃ before registry after, exec (d.compile config) before = (.ok registry, after) ∧
      (∀ t ∈ d.sources, before.SameAt t out) ∧ after.SameAt d.name out := by
  obtain ⟨earlier, later, rfl⟩ := List.append_of_mem member
  obtain ⟨before, -, turn⟩ := h.append_inv
  cases turn with
  | cons first rest =>
    have turn := Compiles.cons first rest
    refine ⟨before, _, _, first, fun t isSource => turn.elsewhere (ordered.before isSource), ?_⟩
    exact rest.elsewhere (List.nodup_cons.1 turn.unloaded.1).1

/-- Where the sources of a unit end up the same, the unit does. -/
theorem sameAt_of_sources (h : Compiles config site ds out) (h' : Compiles config site' ds' out')
    (ordered : Definitions.Ordered ds) (ordered' : Definitions.Ordered ds') (member : d ∈ ds)
    (member' : d ∈ ds') (sources : ∀ t ∈ d.sources, out.SameAt t out') :
    out.SameAt d.name out' := by
  obtain ⟨before, registry, after, compiled, settled, final⟩ := h.exists_compile ordered member
  obtain ⟨before', registry', after', compiled', settled', final'⟩ :=
    h'.exists_compile ordered' member'
  obtain ⟨_, _, _, course⟩ := Definition.exists_course compiled
  obtain ⟨_, _, _, course'⟩ := Definition.exists_course compiled'
  have same : ∀ t ∈ d.sources, before'.store.get? t = before.store.get? t := fun t isSource =>
    ((settled t isSource).trans ((sources t isSource).trans (settled' t isSource).symm)).registry
  exact final.symm.trans ((course.sameAt course' same).trans final')

/-- **Two orders.**  The ends are compared unit by unit along the first order, so the sources of a
unit have been compared before it. -/
theorem sameAt_of_perm (h : Compiles config site ds out) (h' : Compiles config site' ds' out')
    (perm : ds.Perm ds') (ordered : Definitions.Ordered ds) (ordered' : Definitions.Ordered ds')
    (same : ∀ u, site.SameAt u site') (u : String) : out.SameAt u out' := by
  have outside : ∀ u, u ∉ ds.map Definition.name → out.SameAt u out' := by
    intro u other
    have other' : u ∉ ds'.map Definition.name := fun member =>
      other ((perm.map Definition.name).mem_iff.2 member)
    exact (h.elsewhere other).symm.trans ((same u).trans (h'.elsewhere other'))
  have along : ∀ rest done, ds = done ++ rest → (∀ d ∈ done, out.SameAt d.name out') →
      ∀ d ∈ ds, out.SameAt d.name out' := by
    intro rest
    induction rest with
    | nil =>
      intro done split known d member
      rw [split, List.append_nil] at member
      exact known d member
    | cons d rest ih =>
      intro done split known
      have isIn : d ∈ ds := by
        rw [split]
        simp
      have sources : ∀ t ∈ d.sources, out.SameAt t out' := by
        intro t isSource
        by_cases isDone : t ∈ done.map Definition.name
        · obtain ⟨e, isFirst, rfl⟩ := List.mem_map.1 isDone
          exact known e isFirst
        · refine outside t ?_
          rw [split] at ordered ⊢
          rw [List.map_append, List.mem_append, not_or]
          exact ⟨isDone, ordered.before isSource⟩
      have new := h.sameAt_of_sources h' ordered ordered' isIn (perm.mem_iff.1 isIn) sources
      refine ih (done ++ [d]) (by rw [split]; simp) fun e member => ?_
      rcases List.mem_append.1 member with old | last
      · exact known e old
      · rwa [List.mem_singleton.1 last]
  by_cases isCompiled : u ∈ ds.map Definition.name
  · obtain ⟨d, isIn, rfl⟩ := List.mem_map.1 isCompiled
    exact along ds [] rfl (fun _ none => nomatch none) d isIn
  · exact outside u isCompiled

end Compiles

namespace Definitions

variable {config : Config} {ds : Definitions} {names names' : List String}
  {site site' out out' : Site} {registries registries' : List (String × Registry)}

/-- The definitions of the given names, in their order. -/
def select (ds : Definitions) (names : List String) : List Definition := names.filterMap ds.get?

theorem compiles_of_compileEach
    (done : exec (compileEach config ds names) site = (.ok registries, out)) :
    Compiles config site (ds.select names) out := by
  induction names generalizing site registries with
  | nil =>
    cases done
    exact .nil _
  | cons name names ih =>
    unfold compileEach at done
    unfold select
    cases found : ds.get? name with
    | none =>
      rw [found] at done
      rw [List.filterMap_cons_none found]
      exact ih done
    | some d =>
      rw [found] at done
      rw [List.filterMap_cons_some found]
      obtain ⟨registry, site₁, first, rest⟩ := Step.exists_of_exec_bind_eq_ok done
      obtain ⟨others, site₂, compiled, last⟩ := Step.exists_of_exec_bind_eq_ok rest
      cases last
      exact .cons first (ih compiled)

/-- The registries that are returned are those that are published in the end. -/
theorem registries_eq (done : exec (compileEach config ds names) site = (.ok registries, out)) :
    registries = names.filterMap fun name =>
      (ds.get? name).bind fun d =>
        (out.store.get? d.name).map fun registry => (name, registry) := by
  induction names generalizing site registries with
  | nil =>
    cases done
    rfl
  | cons name names ih =>
    have run := compiles_of_compileEach done
    unfold compileEach at done
    unfold select at run
    cases found : ds.get? name with
    | none =>
      rw [found] at done
      rw [List.filterMap_cons_none (by rw [found]; rfl)]
      exact ih done
    | some d =>
      rw [found] at done
      rw [List.filterMap_cons_some found] at run
      obtain ⟨registry, site₁, first, rest⟩ := Step.exists_of_exec_bind_eq_ok done
      obtain ⟨others, site₂, compiled, last⟩ := Step.exists_of_exec_bind_eq_ok rest
      cases last
      obtain ⟨_, _, _, course⟩ := Definition.exists_course first
      have stays := (compiles_of_compileEach compiled).elsewhere
        (List.nodup_cons.1 run.unloaded.1).1
      have published := stays.registry.trans course.published
      rw [List.filterMap_cons_some (by rw [found, Option.bind_some, published, Option.map_some]),
        ← ih compiled]

/-- A registry that is returned is that of a unit that is published and loaded in the end. -/
theorem published_of_mem (done : exec (compileEach config ds names) site = (.ok registries, out))
    {entry : String × Registry} (member : entry ∈ registries) :
    ∃ d image, ds.get? entry.1 = some d ∧ out.store.get? d.name = some entry.2 ∧
      out.program.units.get? d.name = some image := by
  rw [registries_eq done] at member
  obtain ⟨name, isName, isEntry⟩ := List.mem_filterMap.1 member
  obtain ⟨d, found, isEntry⟩ := Option.bind_eq_some_iff.1 isEntry
  obtain ⟨registry, published, rfl⟩ := Option.map_eq_some_iff.1 isEntry
  obtain ⟨_, image, -, held⟩ := (compiles_of_compileEach done).exists_published
    (List.mem_filterMap.2 ⟨name, isName, found⟩)
  exact ⟨d, image, found, published, held⟩

/-- A registry is returned for every name that has a definition, in the order of compilation. -/
theorem names_of_compileEach
    (done : exec (compileEach config ds names) site = (.ok registries, out)) :
    registries.map Prod.fst = names.filter ds.contains := by
  rw [registries_eq done, List.map_filterMap, ← List.filterMap_eq_filter]
  refine List.filterMap_congr fun name isName => ?_
  cases found : ds.get? name with
  | none =>
    rw [Option.guard, if_neg]
    · rfl
    · rw [(Table.get?_eq_none_iff _ _).1 found]
      exact Bool.false_ne_true
  | some d =>
    obtain ⟨registry, _, published, -⟩ := (compiles_of_compileEach done).exists_published
      (List.mem_filterMap.2 ⟨name, isName, found⟩)
    rw [Option.guard, if_pos (Table.contains_iff_exists_get?.2 ⟨d, found⟩), Option.bind_some,
      published]
    rfl

/-- **The order does not matter.**  Let the same definitions be compiled in two orders, in both of
which every unit follows its base and the sources of its imports, on two sites that hold the same
registries and images.  If compilation completes in both orders, it returns the same registries, and
in the end the sites hold the same registry and the same image of every unit.

One registry is returned for each definition, namely the one that has been published; and its unit
has an image. -/
theorem compileEach_sameAt_of_perm (perm : names.Perm names') (ordered : Ordered (ds.select names))
    (ordered' : Ordered (ds.select names')) (same : ∀ u, site.SameAt u site')
    (done : exec (compileEach config ds names) site = (.ok registries, out))
    (done' : exec (compileEach config ds names') site' = (.ok registries', out')) :
    registries.Perm registries' ∧ (∀ u, out.SameAt u out') ∧
      registries.map Prod.fst = names.filter ds.contains ∧
      ∀ entry ∈ registries, ∃ d image, ds.get? entry.1 = some d ∧
        out.store.get? d.name = some entry.2 ∧ out.program.units.get? d.name = some image := by
  have ends := (compiles_of_compileEach done).sameAt_of_perm (compiles_of_compileEach done')
    (perm.filterMap ds.get?) ordered ordered' same
  refine ⟨?_, ends, names_of_compileEach done, fun entry => published_of_mem done⟩
  rw [registries_eq done, registries_eq done']
  simp only [fun u => (ends u).registry]
  exact perm.filterMap _

/-- Three units: one has a hook that declares a routine in its extensions, and another extends it,
imports from the third, and calls the routine that it replaces. -/
def layeredDefinitions : Definitions := .ofList
  [("shape",
    { name := "shape", base := none, fields := [], imports := []
      statements := [.define
        { name := "area", params := [.binding "side"], body := .var "side", guards := []
          isPrivate := false, overridable := true }]
      preHook := some [.define
        { name := "label", params := [], body := .literal (.text "shape"), guards := []
          isPrivate := false, overridable := false }]
      postHook := none, file := ["shapes.unit.json"] }),
    ("lib",
    { name := "lib", base := none, fields := [], imports := []
      statements := [.define
        { name := "unit", params := [], body := .literal (.int 1), guards := []
          isPrivate := false, overridable := false }]
      preHook := none, postHook := none, file := ["shapes.unit.json"] }),
    ("square",
    { name := "square", base := some "shape", fields := [], imports := [(.text "lib", none)]
      statements := [.define
        { name := "area", params := [.binding "side"], guards := []
          body := .primitive "*" [.superCall [.var "side"], .call "unit" []]
          isPrivate := false, overridable := false }]
      preHook := none, postHook := none, file := ["shapes.unit.json"] })]

/-- The base and the source of the imports can change places.  All three units are published, and
loaded, with the registries that are returned. -/
theorem compileEach_sameAt_layered :
    ∃ registries out registries' out',
      exec (compileEach {} layeredDefinitions ["shape", "lib", "square"]) {} =
        (.ok registries, out) ∧
      exec (compileEach {} layeredDefinitions ["lib", "shape", "square"]) {} =
        (.ok registries', out') ∧
      registries.map Prod.fst = ["shape", "lib", "square"] ∧ registries.Perm registries' ∧
      (∀ u, out.SameAt u out') ∧
      ∀ entry ∈ registries, ∃ d image, layeredDefinitions.get? entry.1 = some d ∧
        out.store.get? d.name = some entry.2 ∧ out.program.units.get? d.name = some image := by
  have evaluated : (exec (compileEach {} layeredDefinitions ["shape", "lib", "square"])
        {}).1.toOption.isSome = true ∧
      (exec (compileEach {} layeredDefinitions ["lib", "shape", "square"])
        {}).1.toOption.isSome = true := by
    cbv
  obtain ⟨completes, completes'⟩ := evaluated
  have ordered : Ordered (layeredDefinitions.select ["shape", "lib", "square"]) :=
    ⟨by decide, by decide⟩
  have ordered' : Ordered (layeredDefinitions.select ["lib", "shape", "square"]) :=
    ⟨by decide, by decide⟩
  have perm : ["shape", "lib", "square"].Perm ["lib", "shape", "square"] := .swap _ _ _
  cases done : exec (compileEach {} layeredDefinitions ["shape", "lib", "square"]) {} with
  | mk result out =>
    cases done' : exec (compileEach {} layeredDefinitions ["lib", "shape", "square"]) {} with
    | mk result' out' =>
      rw [done] at completes
      rw [done'] at completes'
      cases result with
      | error e => cases completes
      | ok registries =>
        cases result' with
        | error e => cases completes'
        | ok registries' =>
          obtain ⟨same, ends, complete, published⟩ :=
            compileEach_sameAt_of_perm perm ordered ordered' (.refl _) done done'
          exact ⟨registries, out, registries', out', rfl, rfl, complete.trans (by decide), same,
            ends, published⟩

end Definitions

end Heredity
