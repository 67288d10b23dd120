import Heredity.Proofs.Declarations
import Heredity.Proofs.Derivation
import Heredity.Proofs.Preservation

/-!
# References to the base have a target

Two kinds of calls go from a unit to its base: the calls of forwarders, which inheritance makes, and
the calls of the routine that a declaration replaces, which preparing binds to the base.  That there
is something to be called is checked on the registry of the base, once, when the unit is opened or
the declaration is prepared; the call is answered by the image of the base, much later.

* `Program.Serves` — a unit answers every caller at a key.
* `Reachable.serves_afterAll` — what a published unit passes on, it serves in every later workspace.
* `checked_of_prepareAll` — what a declaration that is prepared calls of its base is recorded there.
* `at?_prepared_superCall` — such a call is bound to the base, in its place.
* `Bench.Delivered` — where a declared routine goes, whether it takes effect or not.
* `Reachable.references_link` — forwarders and calls of replaced routines always have a target.

**Fallback values are not references.**  They are not prepared, so a call of the replaced routine in
one of them is neither checked nor bound; the theorem is about the body and the guards.
-/

namespace Heredity

open Step (exec)

/-- A unit answers every caller at a key, with a routine that is not private. -/
def Program.Serves (p : Program) (unit : String) (key : Key) : Prop :=
  ∃ image e, p.image unit = .ok image ∧ image.routines.get? key = some e ∧ e.isPrivate = false ∧
    ∀ caller, callee image unit key caller = .ok e

namespace Workspace

variable {w : Workspace}

/-- **What a published unit passes on, it serves**, whatever commands follow. -/
theorem Reachable.serves_afterAll (h : w.Reachable) {unit : String} {registry : Registry} {key : Key}
    (published : w.store.get? unit = some registry)
    (recorded : registry.routines.contains key = true) (commands : List Command) :
    (w.afterAll commands).program.Serves unit key := by
  have later := (h.afterAll commands).coherent
  obtain ⟨s, session, -, rfl⟩ := later.published (h.coherent.store_afterAll published commands)
  obtain ⟨r, isRecord⟩ := Table.contains_iff_exists_get?.1 recorded
  obtain ⟨image, e, held, stored, carries⟩ := later.stored_of_recorded session isRecord
  exact ⟨image, e, Program.image_eq_ok held, stored, carries.isPublic,
    Program.callee_of_public stored carries.isPublic unit⟩

end Workspace

/-! ## Calls of the replaced routine -/

/-- What is done for a list is done for each of its members. -/
theorem forall_of_forM_eq_ok {α : Type} {f : α → Except Error Unit} {xs : List α}
    (h : xs.forM f = .ok ⟨⟩) : ∀ x ∈ xs, f x = .ok ⟨⟩ := by
  induction xs with
  | nil => exact List.forall_mem_nil _
  | cons x xs ih =>
    obtain ⟨⟨⟩, first, rest⟩ := exists_of_bind_eq_ok h
    exact List.forall_mem_cons.2 ⟨first, ih rest⟩

namespace Session

variable {store : Store} {d : Draft} {name : String}

/-- A call of the replaced routine that is checked is of a routine that the base passes on. -/
theorem checkSuperCall_eq_ok {key : Key} (h : checkSuperCall store d key = .ok ⟨⟩) :
    ∃ base registry, d.base = some base ∧ store.get? base = some registry ∧
      registry.routines.contains key = true := by
  unfold checkSuperCall at h
  split at h
  · cases h
  · next base isBase =>
    obtain ⟨registry, required, h⟩ := exists_of_bind_eq_ok h
    unfold Store.require at required
    split at required
    · next published =>
      cases required
      split at h
      · next recorded => exact ⟨base, registry, isBase, published, recorded⟩
      · cases h
    · cases required

/-- What is prepared has been checked. -/
theorem checked_of_prepare {expr : Tree} {result : Tree × NameSet}
    (h : prepare store d name expr = .ok result) {args : List Tree}
    (inside : .superCall args ∈ expr.walk) :
    checkSuperCall store d (Key.ofCount name args.length) = .ok ⟨⟩ := by
  obtain ⟨⟨⟩, checked, -⟩ := exists_of_bind_eq_ok h
  exact forall_of_forM_eq_ok checked args.length
    (List.mem_filterMap.2 ⟨.superCall args, inside, rfl⟩)

/-- **Checked.**  What the body and the guards of a prepared declaration call of the base is recorded
there. -/
theorem checked_of_prepareAll {declaration : Declaration} {result : Tree × List Tree × NameSet}
    (h : prepareAll store d declaration = .ok result) {t : Tree}
    (isWritten : t ∈ declaration.body :: declaration.guards) {args : List Tree}
    (inside : .superCall args ∈ t.walk) :
    ∃ base registry, d.base = some base ∧ store.get? base = some registry ∧
      registry.routines.contains (Key.ofCount declaration.name args.length) = true := by
  obtain ⟨ofBody, preparing, h⟩ := exists_of_bind_eq_ok h
  obtain ⟨ofGuards, each, -⟩ := exists_of_bind_eq_ok h
  refine checkSuperCall_eq_ok ?_
  rcases List.mem_cons.1 isWritten with rfl | isGuard
  · exact checked_of_prepare preparing inside
  · obtain ⟨result, -, prepared⟩ := exists_right_of_forall₂ (forall₂_of_mapM_eq_ok each) isGuard
    exact checked_of_prepare prepared inside

/-- **Bound.**  A prepared expression has, in the place of a call of the replaced routine, a call of
the base with as many arguments. -/
theorem at?_prepared_superCall (name : String) {expr : Tree} {path : List Nat} {base : String}
    {args : List Tree} (isBase : d.base = some base)
    (written : expr.at? path = some (.superCall args)) :
    ∃ args', (prepared d name expr).at? path = some (.remoteCall base name args') ∧
      args'.length = args.length := by
  have binding : (expr.bound name d.base).at? path =
      some (.remoteCall base name (args.map (Tree.bound name d.base))) := by
    rw [Tree.bound, Tree.at?_transform (Tree.children_boundNode name d.base), written, isBase]
    show some (Tree.transform _ _) = _
    rw [Tree.transform_eq]
    rfl
  refine ⟨(args.map (Tree.bound name d.base)).map (Tree.qualified d.imports), ?_, by simp⟩
  rw [prepared, Tree.qualified, Tree.at?_transform (Tree.children_qualifiedNode d.imports), binding]
  show some (Tree.qualified _ _) = _
  rw [Tree.qualified_eq]
  rfl

end Session

/-! ## Where a declared routine goes -/

/-- A declared routine is in the image of its unit, or among the inert ones if it is inert. -/
def Bench.Delivered (b : Bench) (e : Emission) (admission : Admission) : Prop :=
  if admission = .inert then e ∈ b.session.inert
  else ∃ image, b.program.units.get? b.unit = some image ∧ image.routines.get? e.key = some e

/-- What is inert stays among the inert ones. -/
theorem Moves.inert_mono {w w' : Writing} {event : Event} (move : Moves w event w') {e : Emission}
    (inert : e ∈ w.session.inert) : e ∈ w'.session.inert := by
  cases move with
  | declareInert => exact List.mem_append_left _ inert
  | _ => exact inert

/-- A variant that is inert is among the inert ones. -/
theorem Trace.mem_inert {w w' : Writing} {events : List Event} (trace : Trace w events w')
    {e : Emission} {units : NameSet} (member : .declare e units .inert ∈ events) :
    e ∈ w'.session.inert := by
  induction trace with
  | nil => cases member
  | @cons w w₁ w' event events first rest ih =>
    rcases List.mem_cons.1 member with rfl | member
    · have now : e ∈ w₁.session.inert := by
        cases first with
        | declareInert => exact List.mem_append_right _ List.mem_cons_self
        | declareRecorded _ _ _ _ _ admitted => cases admitted.isRecorded
      exact rest.invariant (I := fun v => e ∈ v.session.inert)
        (fun _ _ _ _ move => move.inert_mono) now
    · exact ih member

namespace Session

/-- The variant and the admission in one place belong to one event. -/
theorem mem_declarations {declaration : Declaration} {units : NameSet}
    {variants : List Tree.Variant} {admissions : List Admission} {i : Nat} {v : Tree.Variant}
    {admission : Admission} (isVariant : variants[i]? = some v)
    (isAdmission : admissions[i]? = some admission) :
    .declare (variantEmission declaration v) units admission ∈
      declarations declaration units variants admissions := by
  refine List.mem_iff_getElem?.2 ⟨i, ?_⟩
  rw [declarations, List.getElem?_zipWith, isVariant, isAdmission]

/-- **The routine with all parameters** has the prepared body and guards, and is delivered as the
last variant was admitted. -/
theorem fullVariant_delivered {b b' : Bench} (loaded : b.Loaded) {store : Store}
    {declaration : Declaration} {spliced : Bool} {admissions : List Admission}
    (done : exec (define store declaration spliced) b = (.ok admissions, b')) :
    ∃ result admission, prepareAll store b.session.draft declaration = .ok result ∧
      admissions.getLast? = some admission ∧
      b'.Delivered (variantEmission declaration
        (Tree.fullVariant declaration.params result.2.1 result.1)) admission := by
  obtain ⟨body, guards, units, image, prepared, count, held, unit_eq, declared⟩ :=
    declared_of_define loaded done
  have isLast : ∃ admission, admissions[Tree.optionalCount declaration.params]? = some admission :=
    ⟨_, List.getElem?_eq_getElem (by omega)⟩
  obtain ⟨admission, isLast⟩ := isLast
  have isVariant : (Tree.expandDefaults declaration.name declaration.params guards body
      b.session.config.stem)[Tree.optionalCount declaration.params]? =
        some (Tree.fullVariant declaration.params guards body) := by
    rw [Tree.getElem?_expandDefaults, if_neg (Nat.lt_irrefl _), if_pos rfl]
  refine ⟨_, admission, prepared, ?_, ?_⟩
  · rw [List.getLast?_eq_getElem?, count]
    exact isLast
  unfold Bench.Delivered
  split
  · next inert =>
    subst inert
    rcases define_runs loaded store declaration spliced with
      ⟨error, -, failed⟩ | ⟨body', guards', units', admissions', variants, b₁, prepared', rfl, outcome⟩
    · cases failed.symm.trans done
    cases prepared.symm.trans prepared'
    rcases outcome with ⟨done', length, runs⟩ | ⟨error, failed, -⟩
    swap
    · cases failed.symm.trans done
    cases done'.symm.trans done
    obtain ⟨w₁, w₂, -, ⟨session, -⟩, trace, -⟩ := runs
    rw [session]
    exact trace.mem_inert (List.mem_append_left _ (mem_declarations isVariant isLast))
  · next effective =>
    rw [unit_eq]
    exact ⟨image, held, (declared _ _ _ isVariant isLast effective).1⟩

/-- **Calls of the replaced routine.**  A declaration that succeeds has delivered its routine with
all parameters; in the place of every call of the replaced routine in its body or a guard stands a
call of the base, which has published a routine with as many parameters. -/
theorem superCalls_bound {b b' : Bench} (loaded : b.Loaded) {store : Store}
    {declaration : Declaration} {spliced : Bool} {admissions : List Admission}
    (done : exec (define store declaration spliced) b = (.ok admissions, b')) :
    ∃ e admission, e.key = Key.ofCount declaration.name declaration.params.length ∧
      admissions.getLast? = some admission ∧ b'.Delivered e admission ∧
      ∀ path args,
        (Tree.tuple (declaration.body :: declaration.guards)).at? path = some (.superCall args) →
        ∃ base registry args', b.session.draft.base = some base ∧ store.get? base = some registry ∧
          registry.routines.contains (Key.ofCount declaration.name args.length) = true ∧
          e.expressions.at? path = some (.remoteCall base declaration.name args') ∧
          args'.length = args.length := by
  obtain ⟨⟨body, guards, units⟩, admission, prepared, isLast, delivered⟩ :=
    fullVariant_delivered loaded done
  obtain ⟨isBody, areGuards, -⟩ := prepareAll_eq_ok prepared
  refine ⟨_, admission, rfl, isLast, delivered, fun path args written => ?_⟩
  cases path with
  | nil => cases written
  | cons i path =>
    -- The address leads into the body or a guard first, which is prepared in its place.
    obtain ⟨t, isPart, inside⟩ := Option.bind_eq_some_iff.1 written
    have isPart : (declaration.body :: declaration.guards)[i]? = some t := isPart
    have inPlace : (body :: guards)[i]? =
        some (Session.prepared b.session.draft declaration.name t) := by
      rw [isBody, areGuards, ← List.map_cons, List.getElem?_map, isPart]
      rfl
    obtain ⟨base, registry, isBase, published, recorded⟩ :=
      checked_of_prepareAll prepared (List.mem_iff_getElem?.2 ⟨i, isPart⟩)
        (Tree.mem_walk_iff.2 ⟨path, inside⟩)
    obtain ⟨args', bound, length⟩ := at?_prepared_superCall declaration.name isBase inside
    refine ⟨base, registry, args', isBase, published, recorded, ?_, length⟩
    rw [Emission.expressions, Tree.at?_cons_of_child inPlace]
    exact bound

end Session

namespace Workspace

variable {w : Workspace}

/-- **Forwarders.**  A delegated record calls the base with as many arguments as the routine takes,
and the base has published a routine with as many parameters. -/
theorem Reachable.forwarder_bound (h : w.Reachable) {unit : String} {s : Session} {key : Key}
    {r : RoutineRecord} (session : w.sessions.get? unit = some s)
    (recorded : s.draft.routines.get? key = some r) (delegated : r.origin = .delegated) :
    ∃ base registry args, s.draft.base = some base ∧ w.store.get? base = some registry ∧
      registry.routines.contains (Key.ofCount key.name args.length) = true ∧
      r.body = .remoteCall base key.name args ∧ (args.length : Int) = key.arity.toInt := by
  obtain ⟨base, registry, original, isBase, published, rfl, isOriginal, -, handed⟩ :=
    h.handed_down session recorded (by rw [RoutineRecord.inherited, delegated]; rfl)
  cases handed with
  | copied independent made =>
    rw [made] at delegated
    cases delegated
  | delegated dependent made =>
    have sized : ((Tree.forward original.params original.guards s.config.stem).length : Int) =
        key.arity.toInt := by
      rw [Tree.length_forward]
      exact h.coherent.published_sized published key original isOriginal
    have isKey : (Key.ofCount key.name
        (Tree.forward original.params original.guards s.config.stem).length == key) = true :=
      Key.beq_iff.2 ⟨rfl, sized⟩
    refine ⟨registry.unit, registry, _, isBase, published, ?_, by rw [made]; rfl, sized⟩
    rw [Table.contains_congr _ isKey]
    exact Table.contains_iff_exists_get?.2 ⟨original, isOriginal⟩

/-- **References to the base have a target.**  In every workspace that commands lead to, the body of
a delegated record calls the base of the unit with as many arguments as the routine takes.  Where a
declaration succeeds, of the unit or of a hook, its routine with all parameters has a call of the base
with as many arguments in the place of every call of the replaced routine that was written in the
body or a guard.  The base answers each of these calls with a public routine, whoever calls, and will
do so whatever commands follow. -/
theorem Reachable.references_link (h : w.Reachable) :
    (∀ unit s key r, w.sessions.get? unit = some s → s.draft.routines.get? key = some r →
      r.origin = .delegated →
        ∃ base args, s.draft.base = some base ∧ r.body = .remoteCall base key.name args ∧
          (args.length : Int) = key.arity.toInt ∧ ∀ commands,
            (w.afterAll commands).program.Serves base (Key.ofCount key.name args.length)) ∧
      ∀ (b b' : Bench) declaration spliced admissions, b.Loaded →
        exec (Session.define w.store declaration spliced) b = (.ok admissions, b') →
          ∃ e admission, e.key = Key.ofCount declaration.name declaration.params.length ∧
            admissions.getLast? = some admission ∧ b'.Delivered e admission ∧
            ∀ path args, (Tree.tuple (declaration.body :: declaration.guards)).at? path =
                some (.superCall args) →
              ∃ base args', b.session.draft.base = some base ∧
                e.expressions.at? path = some (.remoteCall base declaration.name args') ∧
                args'.length = args.length ∧ ∀ commands, (w.afterAll commands).program.Serves base
                  (Key.ofCount declaration.name args.length) := by
  constructor
  · intro unit s key r session recorded delegated
    obtain ⟨base, registry, args, isBase, published, passedOn, body, sized⟩ :=
      h.forwarder_bound session recorded delegated
    exact ⟨base, args, isBase, body, sized, h.serves_afterAll published passedOn⟩
  · intro b b' declaration spliced admissions loaded done
    obtain ⟨e, admission, isKey, isLast, delivered, bound⟩ := Session.superCalls_bound loaded done
    refine ⟨e, admission, isKey, isLast, delivered, fun path args written => ?_⟩
    obtain ⟨base, registry, args', isBase, published, passedOn, inPlace, length⟩ :=
      bound path args written
    exact ⟨base, args', isBase, inPlace, length, h.serves_afterAll published passedOn⟩

/-- The commands by which a unit is opened that inherits a forwarder, and a routine that it may
replace. -/
def referenceCommands : List Command :=
  [.openRoot {} "base" (.list []),
    .define "base" ⟨"secret", [.binding "n"], .primitive "+" [.var "n", .literal (.int 1)], [], true,
      false⟩,
    .define "base" ⟨"next", [.wildcard "_", .binding "n"], .call "secret" [.var "n"], [], false,
      false⟩,
    .define "base" ⟨"greet", [.binding "n"], .var "n", [], false, false⟩,
    .grant "base" (.ofCount "greet" 1),
    .finish "base",
    .openExtension {} "child" "base" (.list [])]

/-- A declaration that calls the routine that it replaces, in an argument of another call. -/
def replacingDeclaration : Declaration :=
  ⟨"greet", [.binding "n"], .call "next" [.var "n", .superCall [.var "n"]], [], false, false⟩

/-- Commands that end the session of the extension and try to change the base. -/
def settlingCommands : List Command :=
  [.finish "child", .define "base" ⟨"greet", [.binding "n"], .literal .null, [], false, false⟩,
    .withhold "base" (.ofCount "next" 2)]

/-- The forwarder of the extension and the routine that it replaces call the base, which answers
both, also after other commands. -/
theorem references_link_child :
    (∃ s r args, (afterAll ∅ referenceCommands).sessions.get? "child" = some s ∧
        s.draft.routines.get? (.ofCount "next" 2) = some r ∧
        r.body = .remoteCall "base" "next" args ∧ args.length = 2 ∧
        ((afterAll ∅ referenceCommands).afterAll settlingCommands).program.Serves "base"
          (.ofCount "next" args.length)) ∧
      ∃ s b e args, (afterAll ∅ referenceCommands).sessions.get? "child" = some s ∧
        exec (Session.define (afterAll ∅ referenceCommands).store replacingDeclaration false)
          ((afterAll ∅ referenceCommands).bench s) = (.ok [.replace], b) ∧
        b.Delivered e .replace ∧
        e.expressions.at? [0, 1] = some (.remoteCall "base" "greet" args) ∧ args.length = 1 ∧
        ((afterAll ∅ referenceCommands).afterAll settlingCommands).program.Serves "base"
          (.ofCount "greet" 1) := by
  have opened : ((afterAll ∅ referenceCommands).sessions.get? "child").map (fun s =>
      (s.draft.base, (s.draft.routines.get? (.ofCount "next" 2)).map RoutineRecord.origin,
        (exec (Session.define (afterAll ∅ referenceCommands).store replacingDeclaration false)
          ((afterAll ∅ referenceCommands).bench s)).1)) =
      some (some "base", some .delegated, .ok [.replace]) := by cbv
  obtain ⟨s, session, facts⟩ := Option.map_eq_some_iff.1 opened
  simp only [Prod.mk.injEq] at facts
  obtain ⟨isBase, isForwarder, outcome⟩ := facts
  obtain ⟨r, recorded, delegated⟩ := Option.map_eq_some_iff.1 isForwarder
  have reachable := Reachable.empty.afterAll referenceCommands
  obtain ⟨forwarders, superCalls⟩ := Reachable.references_link reachable
  constructor
  · obtain ⟨base, args, isBase', body, sized, serves⟩ :=
      forwarders "child" s _ r session recorded delegated
    cases isBase'.symm.trans isBase
    exact ⟨s, r, args, session, recorded, body, Int.ofNat.inj sized, serves settlingCommands⟩
  · obtain ⟨e, admission, -, isLast, delivered, bound⟩ :=
      superCalls _ _ replacingDeclaration false [.replace] (reachable.coherent.loaded session)
        (Prod.ext outcome rfl)
    cases isLast
    obtain ⟨base, args', isBase', inPlace, length, serves⟩ := bound [0, 1] [.var "n"] rfl
    cases isBase'.symm.trans isBase
    exact ⟨s, _, e, args', session, Prod.ext outcome rfl, delivered, inPlace, length,
      serves settlingCommands⟩

end Workspace

end Heredity
