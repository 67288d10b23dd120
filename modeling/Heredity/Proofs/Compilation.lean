import Heredity.Definition.Compilation
import Heredity.Proofs.Availability
import Heredity.Proofs.Scheduling

/-!
# Compiling units that refer to each other

The order of compilation is computed from the definitions; what must be loaded when a unit is closed
is collected while it is compiled, from its own declarations and from everything that it inherits.
The two agree but for one place: the order does not see the units that *fallback values* call.

* `Definitions.Refers` — every reference of one unit to another, wherever it stands.
* `Definitions.Resolvable` — the references are to defined units, and in no cycle.
* `Definitions.Hides` — a unit is called by a fallback value, and needed in no way that the order
  sees.
* `Site.Sound` — every published registry names loaded units only, hidden ones apart.  Opening a
  unit leaves a sound session (`openUnit_opens`), and compiling it a sound site (`compile_cases`).
* `compile_resolves` — resolvable definitions are all ordered, and each finds loaded what it refers
  to.  The only units that can ever be missing are hidden ones.
* `hidden_missing` — and one can be: three units whose references are resolvable do not compile.
-/

namespace Heredity

open Step (exec)

/-! ## References -/

/-- The parameters of a statement. -/
def Statement.params : Statement → List Tree
  | .define declaration => declaration.params
  | _ => []

namespace Definition

/-- The units that qualified calls name, anywhere in the statements and hooks of a definition. -/
def targets (d : Definition) : List String :=
  (d.allStatements.flatMap Statement.trees).flatMap Tree.remoteUnits

/-- The units that qualified calls in fallback values name. -/
def fallbackTargets (d : Definition) : List String :=
  (d.allStatements.flatMap Statement.params).flatMap Tree.remoteUnits

/-- The units that a definition refers to: its base, the sources of its imports, and the units that
qualified calls name, itself left aside. -/
def references (d : Definition) : List String :=
  d.base.toList ++ d.imports.filterMap (fun i => i.1.text?) ++
    d.targets.filter (fun t => t != d.name)

/-- Qualified calls stand in bodies, guards and fallback values. -/
theorem mem_targets {d : Definition} {t : String} :
    t ∈ d.targets ↔
      t ∈ (d.allStatements.flatMap statementExpressions).flatMap Tree.remoteUnits ∨
        t ∈ d.fallbackTargets := by
  have split : ∀ s : Statement, s.trees = statementExpressions s ++ s.params := by
    intro s
    cases s <;> rfl
  simp only [targets, fallbackTargets, List.mem_flatMap, split, List.mem_append]
  constructor
  · rintro ⟨tree, ⟨s, member, inside | inside⟩, named⟩
    · exact .inl ⟨tree, ⟨s, member, inside⟩, named⟩
    · exact .inr ⟨tree, ⟨s, member, inside⟩, named⟩
  · rintro (⟨tree, ⟨s, member, inside⟩, named⟩ | ⟨tree, ⟨s, member, inside⟩, named⟩)
    · exact ⟨tree, ⟨s, member, .inl inside⟩, named⟩
    · exact ⟨tree, ⟨s, member, .inr inside⟩, named⟩

end Definition

namespace Definitions

variable {ds : Definitions} {n t : String}

/-- One defined unit refers to another. -/
def Refers (ds : Definitions) (n t : String) : Prop := ∃ d, ds.get? n = some d ∧ t ∈ d.references

/-- **Hidden references.**  A fallback value of one unit calls another, which the unit needs in no
way that the order of compilation sees, not even by way of other units. -/
def Hides (ds : Definitions) (n t : String) : Prop :=
  (∃ d, ds.get? n = some d ∧ t ∈ d.fallbackTargets ∧ t ≠ n) ∧
    ¬ Relation.TransGen ds.Needs n t

/-- Definitions that can be resolved among themselves. -/
structure Resolvable (ds : Definitions) : Prop where
  /-- They are kept under the names of their units. -/
  named : ∀ n d, ds.get? n = some d → d.name = n
  /-- The sources of imports are names. -/
  sources : ∀ n d, ds.get? n = some d → ∀ i ∈ d.imports, ∃ source, i.1.text? = some source
  /-- Every unit that one refers to is defined. -/
  defined : ∀ n t, ds.Refers n t → ds.contains t = true
  /-- No reference leads back to where it starts from. -/
  acyclic : ∀ n, ¬ Relation.TransGen ds.Refers n n

theorem mem_entries_of_get? {d : Definition} (found : ds.get? n = some d) :
    (n, d) ∈ ds.entries := by
  obtain ⟨n', member, same⟩ := Table.get?_eq_some_iff.1 found
  exact eq_of_beq same ▸ member

/-- Definitions are resolvable if every reference is to a defined unit of lower rank. -/
theorem resolvable_of_rank (rank : String → Nat)
    (h : ∀ e ∈ ds.entries, e.2.name = e.1 ∧ (∀ i ∈ e.2.imports, i.1.text?.isSome = true) ∧
      ∀ t ∈ e.2.references, ds.contains t = true ∧ rank t < rank e.1) : ds.Resolvable := by
  have descends : ∀ {n t}, Relation.TransGen ds.Refers n t → rank t < rank n := by
    intro n t path
    induction path with
    | single refers =>
      obtain ⟨d, found, isReference⟩ := refers
      exact ((h _ (mem_entries_of_get? found)).2.2 _ isReference).2
    | tail _ refers ih =>
      obtain ⟨d, found, isReference⟩ := refers
      exact ((h _ (mem_entries_of_get? found)).2.2 _ isReference).2.trans ih
  constructor
  · exact fun n d found => (h _ (mem_entries_of_get? found)).1
  · exact fun n d found i member =>
      Option.isSome_iff_exists.1 ((h _ (mem_entries_of_get? found)).2.1 i member)
  · rintro n t ⟨d, found, isReference⟩
    exact ((h _ (mem_entries_of_get? found)).2.2 t isReference).1
  · exact fun n cycle => Nat.lt_irrefl _ (descends cycle)

/-- What the order sees is a reference. -/
theorem Resolvable.refers_of_needs (h : ds.Resolvable) (needed : ds.Needs n t) :
    ds.Refers n t := by
  obtain ⟨d, found, needed⟩ := needed
  obtain ⟨required, -, other⟩ := mem_needs.1 needed
  refine ⟨d, found, ?_⟩
  rw [Definition.references]
  rcases List.mem_append.1 required with direct | called
  · exact List.mem_append_left _ direct
  · refine List.mem_append_right _ (List.mem_filter.2 ⟨Definition.mem_targets.2 (.inl called), ?_⟩)
    rw [h.named n d found]
    exact bne_iff_ne.2 other

/-- A reference is seen by the order, or it is hidden. -/
theorem Resolvable.needs_or_hides (h : ds.Resolvable) (refers : ds.Refers n t) :
    Relation.TransGen ds.Needs n t ∨ ds.Hides n t := by
  have other : t ≠ n := by
    rintro rfl
    exact h.acyclic t (.single refers)
  have isDefined := h.defined n t refers
  obtain ⟨d, found, isReference⟩ := refers
  have seen : t ∈ d.requirements → Relation.TransGen ds.Needs n t := fun required =>
    .single ⟨d, found, mem_needs.2 ⟨required, isDefined, other⟩⟩
  rcases List.mem_append.1 isReference with direct | called
  · exact .inl (seen (List.mem_append_left _ direct))
  · rcases Definition.mem_targets.1 (List.mem_filter.1 called).1 with called | called
    · exact .inl (seen (List.mem_append_right _ called))
    · rw [or_iff_not_imp_left]
      exact fun unseen => ⟨⟨d, found, called, other⟩, unseen⟩

theorem Resolvable.basesKnown (h : ds.Resolvable) (store : Store) : ds.BasesKnown store := by
  intro n d found base isBase
  refine .inl (h.defined n base ⟨d, found, ?_⟩)
  rw [Definition.references, isBase]
  simp

/-- The order sees no cycle where there is none. -/
theorem Resolvable.acyclic_needs (h : ds.Resolvable) (n : String) :
    ¬ Relation.TransGen ds.Needs n n :=
  fun cycle => h.acyclic n
    (Relation.TransGen.mono (fun _ _ needed => h.refers_of_needs needed) n n cycle)

end Definitions

/-! ## Compiling one unit -/

/-- A unit is loaded, or it is one of those that may be missing. -/
def Site.Knows (site : Site) (stray : String → Prop) (u : String) : Prop :=
  site.program.contains u = true ∨ stray u

/-- The site after a session has worked on it. -/
def Site.withBench (site : Site) (b : Bench) : Site :=
  { site with program := b.program, warnings := b.warnings }

/-- Every published unit is loaded, and names only units that are loaded or may be missing. -/
def Site.Sound (stray : String → Prop) (site : Site) : Prop :=
  ∀ u registry, site.store.get? u = some registry →
    registry.unit = u ∧ site.program.contains u = true ∧ registry.Within (site.Knows stray)

/-- Everything that a definition refers to is there when it is compiled. -/
structure Definition.Supplied (stray : String → Prop) (site : Site) (d : Definition) : Prop where
  /-- The base is published. -/
  base : ∀ base, d.base = some base → ∃ r, site.store.get? base = some r
  /-- The sources of the imports are published. -/
  imports : ∀ i ∈ d.imports, ∃ source r, i.1 = .text source ∧ site.store.get? source = some r
  /-- The units that its calls name are loaded, or may be missing. -/
  targets : ∀ t ∈ d.targets, t = d.name ∨ site.Knows stray t

/-- An error that is not for want of a unit, or says that certain units are missing. -/
def Error.Blames (stray : String → Prop) (e : Error) : Prop :=
  e.isUnresolved = false ∨ ∃ unit missing, e = .requirementsNotLoaded unit missing ∧
    missing ≠ [] ∧ ∀ u ∈ missing, stray u

namespace Definition

variable {stray : String → Prop} {site : Site} {d : Definition} {config : Config}

theorem Supplied.statements (h : d.Supplied stray site) {s : Statement}
    (member : s ∈ d.allStatements) : s.Within fun t => t = d.name ∨ site.Knows stray t :=
  fun _ isTree _ named => h.targets _
    (List.mem_flatMap.2 ⟨_, List.mem_flatMap.2 ⟨s, member, isTree⟩, named⟩)

/-- **Opening.**  It fails for want of no unit, or leaves a sound session. -/
def Opens (stray : String → Prop) (site : Site) (unit : String) (m : Step Site Session) : Prop :=
  (∃ error, (exec m site).1 = .error error ∧ error.isUnresolved = false) ∨
    ∃ b, exec m site = (.ok b.session, site.withBench b) ∧
      b.Sound site.store unit (fun t => t = unit ∨ site.Knows stray t)
        (fun u => u = unit ∨ site.program.contains u = true)

theorem openRoot_opens (config : Config) (unit : String) (fields : Value) :
    Opens stray site unit (Site.openRoot config unit fields) := by
  rcases site.exec_openRoot_cases config unit fields with
    ⟨error, failed, served⟩ | ⟨merged, -, opened⟩
  · exact .inl ⟨error, by rw [failed], served⟩
  · exact .inr ⟨_, opened, site.openingBench_root_sound config unit merged⟩

theorem openExtension_opens {base : String} {registry : Registry} (config : Config) (unit : String)
    (fields : Value) (sound : site.Sound stray)
    (published : site.store.get? base = some registry) :
    Opens stray site unit (Site.openExtension config unit base fields) := by
  rcases site.exec_openExtension_cases config unit base fields with
    ⟨error, failed, lacking⟩ |
      ⟨registry', resolution, result, b, published', resolved, -, put, opened⟩
  · refine .inl ⟨error, by rw [failed], ?_⟩
    rw [Bool.eq_false_iff]
    intro unresolved
    cases (lacking unresolved).symm.trans published
  · obtain ⟨named, isLoaded, within⟩ := sound base registry' published'
    have known : registry'.Within fun t => t = unit ∨ site.Knows stray t := within.mono fun _ => .inr
    have isBase : registry'.unit = unit ∨ site.Knows stray registry'.unit :=
      .inr (.inl (named.symm ▸ isLoaded))
    have opening := site.openingBench_resolved_sound resolved known isBase
      ⟨registry', named.symm ▸ published'⟩
    obtain ⟨kept, served⟩ := Session.materialize_safe_of_resolve resolved known isBase _ opening
    rw [put] at kept served
    cases result with
    | error error => exact .inl ⟨error, by rw [opened]; rfl, served error rfl⟩
    | ok _ => exact .inr ⟨b, opened, kept⟩

theorem openUnit_opens (config : Config) (sound : site.Sound stray)
    (supplied : d.Supplied stray site) : Opens stray site d.name (d.openUnit config) := by
  unfold openUnit
  cases isBase : d.base with
  | none => exact openRoot_opens config d.name _
  | some base =>
    obtain ⟨registry, published⟩ := supplied.base base isBase
    exact openExtension_opens config d.name _ sound published

/-- Everything that a definition says after its unit has been opened. -/
theorem declareAll_safe {named loaded : String → Prop} {store : Store}
    (supplied : d.Supplied stray site) (shared : site.store = store)
    (sources : ∀ source r, store.get? source = some r → named r.unit)
    (targets : ∀ s ∈ d.allStatements, s.Within named) :
    Step.Safe (Bench.Sound store d.name named loaded) (d.declareAll store) := by
  unfold declareAll
  have hooks : ∀ hook ∈ d.preHook.toList ++ d.postHook.toList, ∀ s ∈ hook, s.Within named := by
    intro hook isHook s inside
    refine targets s ?_
    rw [allStatements, List.append_assoc]
    refine List.mem_append_right _ ?_
    rw [← List.flatten_append]
    exact List.mem_flatten.2 ⟨hook, isHook, inside⟩
  refine Step.Safe.bind (.forM fun i isImport => ?_) fun _ => ?_
  · obtain ⟨source, r, isSource, published⟩ := supplied.imports i isImport
    rw [isSource]
    rw [shared] at published
    exact Session.importRoutines_safe published (sources source r published) i.2
  · have statements : Step.Safe (Bench.Sound store d.name named loaded)
        (d.statements.forM (Session.run store false)) := by
      refine .forM fun s member => Session.run_safe (targets s ?_) false
      rw [allStatements, List.append_assoc]
      exact List.mem_append_left _ member
    split
    · exact (Session.setHooks_safe hooks).bind fun _ => statements
    · exact statements

/-- Compiling a definition is opening it, declaring, closing and publishing. -/
theorem exec_compile_of_open {b : Bench}
    (opened : exec (d.openUnit config) site = (.ok b.session, site.withBench b)) :
    exec (d.compile config) site =
      match exec (d.declareAll site.store) b with
      | (.error e, b') => (.error e, site.withBench b')
      | (.ok _, b') =>
        match exec Session.close b' with
        | (.error e, b'') => (.error e, site.withBench b'')
        | (.ok registry, b'') => exec (Site.publish registry) (site.withBench b'') := by
  unfold compile
  rw [Step.exec_bind_of_ok opened]
  refine (Step.exec_liftM_bind _ _ _).trans ?_
  cases declaring : exec (d.declareAll site.store) b with
  | mk result b' =>
    rw [Site.run_work declaring]
    cases result with
    | error e => rfl
    | ok _ =>
      dsimp only
      rw [Step.exec_lift_ok_bind]
      refine (Step.exec_liftM_bind _ _ _).trans ?_
      show exec (Bench.lift ((Site.finish b'.session).run (site.withBench b')).1.1)
        ((Site.finish b'.session).run (site.withBench b')).2 = _
      have finished := Site.run_finish b'.session (site.withBench b')
      cases closing : exec Session.close b' with
      | mk result' b'' =>
        have closing : exec Session.close
            ⟨b'.session, (site.withBench b').program, (site.withBench b').warnings⟩ =
              (result', b'') := closing
        rw [closing] at finished
        cases result' with
        | error e =>
          rw [finished]
          rfl
        | ok registry =>
          dsimp only at finished ⊢
          cases published : exec (Site.publish registry) (site.withBench b'') with
          | mk result'' site'' =>
            have published : exec (Site.publish registry) { site.withBench b' with
                program := b''.program, warnings := b''.warnings } = (result'', site'') := published
            rw [published] at finished
            rw [finished]
            rfl

/-- Publishing what a sound session has written keeps the site sound. -/
theorem sound_publish {b : Bench} {unit : String} (sound : site.Sound stray)
    (final : b.Sound site.store unit (fun t => t = unit ∨ site.Knows stray t)
      fun u => u = unit ∨ site.program.contains u = true) :
    Site.Sound stray { site.withBench b with
      store := ⟨site.store.published.insert b.session.draft.toRegistry.unit
        b.session.draft.toRegistry⟩ } := by
  have knows : ∀ t, t = unit ∨ site.Knows stray t → (site.withBench b).Knows stray t := by
    rintro t (rfl | isLoaded | isStray)
    · exact .inl (final.loaded _ (.inl rfl))
    · exact .inl (final.loaded t (.inr isLoaded))
    · exact .inr isStray
  intro u r found
  rw [Store.get?, Table.get?_insert] at found
  split at found
  · next same =>
    cases found
    obtain ⟨w, shows', within⟩ := final.within
    refine ⟨eq_of_beq same, final.loaded u (.inl ((eq_of_beq same).symm.trans final.unit)), ?_⟩
    rw [shows'.1]
    exact within.draft.mono knows
  · obtain ⟨named, isLoaded, within⟩ := sound u r found
    exact ⟨named, final.loaded u (.inr isLoaded), within.mono fun t known => knows t (.inr known)⟩

/-- **One unit.**  Compiling a definition whose references are there leaves a sound site in which
the unit is published, or it fails; and if it fails for want of units, these are ones that may be
missing. -/
theorem compile_cases (config : Config) (sound : site.Sound stray)
    (supplied : d.Supplied stray site) :
    (∃ error, (exec (d.compile config) site).1 = .error error ∧ error.Blames stray) ∨
      ∃ registry site', exec (d.compile config) site = (.ok registry, site') ∧
        site'.Sound stray ∧ site'.store.get? d.name = some registry ∧
        ∀ u r, site.store.get? u = some r → site'.store.get? u = some r := by
  rcases openUnit_opens config sound supplied with
    ⟨error, failed, served⟩ | ⟨b, opened, opening⟩
  · exact .inl ⟨error, Step.fst_exec_bind_of_error failed _, .inl served⟩
  rw [exec_compile_of_open opened]
  have declaring := declareAll_safe supplied rfl
    (fun source r published => by
      obtain ⟨named, isLoaded, -⟩ := sound source r published
      exact .inr (.inl (named ▸ isLoaded)))
    (fun s member => supplied.statements member) b opening
  obtain ⟨declared, served⟩ := declaring
  cases declaring : exec (d.declareAll site.store) b with
  | mk result b₁ =>
  rw [declaring] at declared served
  cases result with
  | error error => exact .inl ⟨error, rfl, .inl (served error rfl)⟩
  | ok _ =>
  dsimp only
  rcases Session.close_cases declared with ⟨error, refused, blame⟩ | ⟨b₂, closed, final⟩
  · obtain ⟨b₂, stopped⟩ : ∃ b₂, exec Session.close b₁ = (.error error, b₂) :=
      ⟨_, Prod.ext refused rfl⟩
    rw [stopped]
    refine .inl ⟨error, rfl, blame.imp_right ?_⟩
    rintro ⟨missing, rfl, some, each⟩
    refine ⟨_, missing, rfl, some, fun u member => ?_⟩
    obtain ⟨rfl | isLoaded | isStray, unloaded⟩ := each u member
    · exact absurd (.inl rfl) unloaded
    · exact absurd (.inr isLoaded) unloaded
    · exact isStray
  · rw [closed]
    dsimp only
    rcases Workspace.exec_publish_cases b₂.session.draft.toRegistry (site.withBench b₂) with
      ⟨error, refused, served⟩ | ⟨fresh, published⟩
    · exact .inl ⟨error, by rw [refused], .inl served⟩
    have remains := sound_publish sound final
    refine .inr ⟨_, _, published, remains, ?_, fun u r found => ?_⟩
    · have unit : b₂.session.draft.unit = d.name := final.unit
      rw [Store.get?, Table.get?_insert, unit, if_pos BEq.rfl]
    · rw [Store.get?, Table.get?_insert, if_neg]
      · exact found
      · intro same
        cases (eq_of_beq same ▸ fresh).symm.trans found

end Definition

/-! ## Compiling all units -/

namespace Definitions

variable {ds : Definitions} {config : Config}

/-- In an order in which every unit follows what it needs, it follows what these units need, too. -/
theorem mem_before_of_transGen {names : List String}
    (follows : ∀ before n after, names = before ++ n :: after → ∀ t, ds.Needs n t → t ∈ before)
    {before after : List String} {n t : String} (split : names = before ++ n :: after)
    (path : Relation.TransGen ds.Needs n t) : t ∈ before := by
  induction path using Relation.TransGen.head_induction_on generalizing before after with
  | single needed => exact follows before _ after split _ needed
  | head needed _ ih =>
    obtain ⟨first, second, rfl⟩ := List.append_of_mem (follows before _ after split _ needed)
    rw [List.append_assoc, List.cons_append] at split
    exact List.mem_append_left _ (ih split)

/-- What a unit refers to is there when all units have been compiled that it needs. -/
theorem Resolvable.supplied (h : ds.Resolvable) {stray : String → Prop}
    (strays : ∀ n t, ds.Hides n t → stray t) {site : Site} (sound : site.Sound stray) {n : String}
    {d : Definition} (found : ds.get? n = some d)
    (ready : ∀ t, Relation.TransGen ds.Needs n t → ∃ r, site.store.get? t = some r) :
    d.Supplied stray site := by
  have other : ∀ t, ds.Refers n t → t ≠ n := by
    rintro t refers rfl
    exact h.acyclic t (.single refers)
  have direct : ∀ t ∈ d.base.toList ++ d.imports.filterMap (fun i => i.1.text?),
      ∃ r, site.store.get? t = some r := by
    intro t member
    have refers : ds.Refers n t := ⟨d, found, List.mem_append_left _ member⟩
    exact ready t (.single ⟨d, found, mem_needs.2
      ⟨List.mem_append_left _ member, h.defined n t refers, other t refers⟩⟩)
  refine ⟨fun base isBase => direct base ?_, fun i isImport => ?_, fun t isTarget => ?_⟩
  · rw [isBase]
    simp
  · obtain ⟨source, isSource⟩ := h.sources n d found i isImport
    obtain ⟨r, published⟩ := direct source
      (List.mem_append_right _ (List.mem_filterMap.2 ⟨i, isImport, isSource⟩))
    refine ⟨source, r, ?_, published⟩
    cases value : i.1 with
    | text text =>
      rw [value] at isSource
      cases isSource
      rfl
    | _ =>
      rw [value] at isSource
      cases isSource
  · rw [or_iff_not_imp_left]
    intro foreign
    have refers : ds.Refers n t := ⟨d, found, List.mem_append_right _
      (List.mem_filter.2 ⟨isTarget, bne_iff_ne.2 foreign⟩)⟩
    rcases h.needs_or_hides refers with needed | hidden
    · obtain ⟨r, published⟩ := ready t needed
      exact .inl (sound t r published).2.1
    · exact .inr (strays n t hidden)

/-- **All units.**  Compiling a part of the schedule publishes its units, one after the other, or
fails; and if it fails for want of units, these are hidden ones. -/
theorem Resolvable.compileEach_cases (h : ds.Resolvable) (config : Config) {all : List String}
    (follows : ∀ before n after, all = before ++ n :: after → ∀ t, ds.Needs n t → t ∈ before)
    {done names rest : List String} (split : all = done ++ (names ++ rest)) {site : Site}
    (sound : site.Sound fun t => ∃ n, ds.Hides n t)
    (published : ∀ u ∈ done, ∃ r, site.store.get? u = some r)
    (areDefined : ∀ n ∈ names, ds.contains n = true) :
    (∃ error, (exec (compileEach config ds names) site).1 = .error error ∧
        error.Blames fun t => ∃ n, ds.Hides n t) ∨
      ∃ registries site', exec (compileEach config ds names) site = (.ok registries, site') ∧
        (site'.Sound fun t => ∃ n, ds.Hides n t) ∧
        ∀ u ∈ done ++ names, ∃ r, site'.store.get? u = some r := by
  induction names generalizing done site with
  | nil => exact .inr ⟨[], site, rfl, sound, by rwa [List.append_nil]⟩
  | cons name names ih =>
    obtain ⟨d, found⟩ := Table.contains_iff_exists_get?.1 (areDefined name List.mem_cons_self)
    have named := h.named name d found
    have supplied := h.supplied (fun n t hidden => ⟨n, hidden⟩) sound found fun t path =>
      published t (mem_before_of_transGen follows split path)
    rw [compileEach, found]
    dsimp only
    rcases Definition.compile_cases config sound supplied with
      ⟨error, failed, blame⟩ | ⟨registry, site₁, compiled, sound₁, new, kept⟩
    · exact .inl ⟨error, Step.fst_exec_bind_of_error failed _, blame⟩
    have published₁ : ∀ u ∈ done ++ [name], ∃ r, site₁.store.get? u = some r := by
      intro u member
      rcases List.mem_append.1 member with old | same
      · obtain ⟨r, isOld⟩ := published u old
        exact ⟨r, kept u r isOld⟩
      · rw [List.mem_singleton.1 same, ← named]
        exact ⟨registry, new⟩
    rw [Step.exec_bind_of_ok compiled]
    have split₁ : all = (done ++ [name]) ++ (names ++ rest) := by
      rw [split]
      simp
    rcases ih split₁ sound₁ published₁ fun n member => areDefined n (List.mem_cons_of_mem _ member)
      with ⟨error, failed, blame⟩ | ⟨registries, site', compiled', sound', published'⟩
    · exact .inl ⟨error, Step.fst_exec_bind_of_error failed _, blame⟩
    · refine .inr ⟨(name, registry) :: registries, site', ?_, sound', ?_⟩
      · rw [Step.exec_bind_of_ok compiled']
        rfl
      · rwa [List.append_assoc] at published'

/-- **Compiling resolvable definitions.**  Every defined unit is ordered.  Compilation fails neither
for a base or a source that is not published nor for a cycle; the only units that it can find
missing are called by a fallback value of a unit that needs them in no other way.  And when a unit's
turn comes, everything that it refers to is published and loaded, such hidden references apart. -/
theorem Resolvable.compile_resolves (h : ds.Resolvable) (config : Config) :
    ∃ names, ds.schedule ∅ = .ok names ∧ names.Nodup ∧
      (∀ n, n ∈ names ↔ ds.contains n = true) ∧
      (∀ error, (exec (ds.compile config) {}).1 = .error error → error.isUnresolved = true →
        ∃ unit missing, error = .requirementsNotLoaded unit missing ∧ missing ≠ [] ∧
          ∀ t ∈ missing, ∃ n, ds.Hides n t) ∧
      ∀ before n after, names = before ++ n :: after →
        ∀ registries site, exec (compileEach config ds before) {} = (.ok registries, site) →
          ∀ t, ds.Refers n t →
            ((∃ r, site.store.get? t = some r) ∧ site.program.contains t = true) ∨
              ds.Hides n t := by
  obtain ⟨names, scheduled, nodup, listed, follows⟩ :=
    schedule_eq_ok (h.basesKnown ∅) h.acyclic_needs
  have empty : Site.Sound (fun t => ∃ n, ds.Hides n t) {} := fun _ _ none => nomatch none
  refine ⟨names, scheduled, nodup, listed, fun error failed unresolved => ?_,
    fun before n after split registries site done t refers => ?_⟩
  · have compiling : exec (ds.compile config) {} = exec (compileEach config ds names) {} := by
      rw [compile, Step.exec_get_bind, scheduled, Step.exec_lift_ok_bind]
    rw [compiling] at failed
    have whole : names = [] ++ (names ++ []) := (List.append_nil names).symm
    rcases h.compileEach_cases config follows whole empty (fun _ none => nomatch none)
      fun n => (listed n).1 with
      ⟨error', failed', blame⟩ | ⟨registries, site, compiled, -⟩
    · cases failed.symm.trans failed'
      exact blame.resolve_left (by rw [unresolved]; exact Bool.noConfusion)
    · rw [compiled] at failed
      cases failed
  · have part : names = [] ++ (before ++ n :: after) := split
    have areDefined : ∀ m ∈ before, ds.contains m = true := by
      intro m member
      refine (listed m).1 ?_
      rw [split]
      exact List.mem_append_left _ member
    rcases h.compileEach_cases config follows part empty (fun _ none => nomatch none)
      areDefined with
      ⟨error, failed, -⟩ | ⟨registries', site', compiled, sound, published⟩
    · rw [done] at failed
      cases failed
    · cases done.symm.trans compiled
      refine (h.needs_or_hides refers).imp_left fun path => ?_
      obtain ⟨r, found⟩ := published t (mem_before_of_transGen follows split path)
      exact ⟨⟨r, found⟩, (sound t r found).2.1⟩

/-- Three units: one calls a routine of another in a guard, and the third extends it and falls back
on a call of the same routine. -/
def coveredDefinitions : Definitions := .ofList
  [("child",
    { name := "child", base := some "base", fields := [], imports := []
      statements := [.define
        { name := "area", params := [.optional (.binding "side") (.remoteCall "lib" "unit" [])]
          body := .var "side", guards := [], isPrivate := false, overridable := false }]
      preHook := none, postHook := none, file := ["shapes.unit.json"] }),
    ("base",
    { name := "base", base := none, fields := [], imports := []
      statements := [.define
        { name := "holds", params := [.binding "n"], body := .var "n"
          guards := [.primitive "==" [.var "n", .remoteCall "lib" "unit" []]]
          isPrivate := false, overridable := false }]
      preHook := none, postHook := none, file := ["shapes.unit.json"] }),
    ("lib",
    { name := "lib", base := none, fields := [], imports := []
      statements := [.define
        { name := "unit", params := [], body := .literal (.int 1), guards := []
          isPrivate := false, overridable := false }]
      preHook := none, postHook := none, file := ["shapes.unit.json"] })]

/-- The fallback value calls a unit that the base needs, so it is not hidden, and compilation lacks
no unit. -/
theorem compile_resolves_covered :
    coveredDefinitions.Resolvable ∧ coveredDefinitions.schedule ∅ = .ok ["lib", "base", "child"] ∧
      (∀ error, (exec (coveredDefinitions.compile {}) {}).1 = .error error →
        error.isUnresolved = false) ∧
      ∃ registries site, exec (compileEach {} coveredDefinitions ["lib", "base"]) {} =
          (.ok registries, site) ∧
        ∀ t ∈ ["lib", "base"], site.program.contains t = true := by
  have resolvable : coveredDefinitions.Resolvable :=
    resolvable_of_rank (fun n => ["lib", "base", "child"].idxOf n) (by decide)
  have evaluated : coveredDefinitions.schedule ∅ = .ok ["lib", "base", "child"] ∧
      (exec (compileEach {} coveredDefinitions ["lib", "base"]) {}).1.toOption.isSome = true := by
    cbv
  obtain ⟨ordered, compiles⟩ := evaluated
  -- What is asked of one definition is decided by looking it up.
  have lookUp : ∀ n (p : Definition → Bool), (coveredDefinitions.get? n).any p = true →
      ∃ d, coveredDefinitions.get? n = some d ∧ p d = true := by
    intro n p holds
    cases found : coveredDefinitions.get? n with
    | none => simp [found] at holds
    | some d => exact ⟨d, rfl, by simpa [found] using holds⟩
  have needs : ∀ n t, ((coveredDefinitions.get? n).any fun d =>
      decide (t ∈ coveredDefinitions.needs n d)) = true → coveredDefinitions.Needs n t :=
    fun n t holds => (lookUp n _ holds).imp fun d => And.imp_right of_decide_eq_true
  have covered : ∀ n t, ¬ coveredDefinitions.Hides n t := by
    rintro n t ⟨⟨d, found, falls, -⟩, unseen⟩
    have only : ∀ e ∈ coveredDefinitions.entries, ∀ t ∈ e.2.fallbackTargets,
        e.1 = "child" ∧ t = "lib" := by decide
    obtain ⟨rfl, rfl⟩ := only _ (mem_entries_of_get? found) t falls
    have ofBase : coveredDefinitions.Needs "base" "lib" := needs _ _ (by decide)
    exact unseen (.head (needs "child" "base" (by decide)) (.single ofBase))
  obtain ⟨names, scheduled, -, -, fails, loads⟩ := resolvable.compile_resolves {}
  cases ordered.symm.trans scheduled
  refine ⟨resolvable, ordered, fun error failed => ?_, ?_⟩
  · rw [Bool.eq_false_iff]
    intro unresolved
    obtain ⟨unit, missing, -, some, hidden⟩ := fails error failed unresolved
    obtain ⟨t, listed⟩ := List.exists_mem_of_ne_nil missing some
    obtain ⟨n, hides⟩ := hidden t listed
    exact covered n t hides
  · cases compiled : exec (compileEach {} coveredDefinitions ["lib", "base"]) {} with
    | mk result site =>
      rw [compiled] at compiles
      cases result with
      | error e => cases compiles
      | ok registries =>
        refine ⟨registries, site, rfl, fun t member => ?_⟩
        obtain ⟨d, found, refers⟩ := lookUp "child"
          (fun d => decide (∀ t ∈ ["lib", "base"], t ∈ d.references)) (by decide)
        have refers : coveredDefinitions.Refers "child" t :=
          ⟨d, found, of_decide_eq_true refers t member⟩
        have turn := loads ["lib", "base"] "child" [] rfl registries site compiled t refers
        exact (turn.resolve_right (covered _ _)).2

/-- Four units.  The first falls back on a call of a routine of the third, the second extends the
first, and the third extends the fourth. -/
def hiddenDefinitions : Definitions := .ofList
  [("A",
    { name := "A", base := none, fields := [], imports := []
      statements := [.define
        { name := "f", params := [.optional (.binding "x") (.remoteCall "X" "g" [])]
          body := .var "x", guards := [], isPrivate := false, overridable := false }]
      preHook := none, postHook := none, file := ["a.unit.yaml"] }),
    ("B",
    { name := "B", base := some "A", fields := [], imports := [], statements := []
      preHook := none, postHook := none, file := ["a.unit.yaml"] }),
    ("X",
    { name := "X", base := some "Y", fields := [], imports := []
      statements := [.define
        { name := "g", params := [], body := .literal (.int 1), guards := []
          isPrivate := false, overridable := false }]
      preHook := none, postHook := none, file := ["a.unit.yaml"] }),
    ("Y",
    { name := "Y", base := none, fields := [], imports := [], statements := []
      preHook := none, postHook := none, file := ["a.unit.yaml"] })]

/-- **A hidden unit can be missing.**  The references are resolvable, but the order does not see the
call in the fallback value: the second unit inherits it, and is closed before the unit that it calls
is compiled. -/
theorem hidden_missing :
    hiddenDefinitions.Resolvable ∧
      (exec (hiddenDefinitions.compile {}) {}).1 = .error (.requirementsNotLoaded "B" ["X"]) := by
  refine ⟨resolvable_of_rank (fun n => ["Y", "X", "A", "B"].idxOf n) (by decide), ?_⟩
  cbv

end Definitions

end Heredity
