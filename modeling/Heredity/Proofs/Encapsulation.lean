import Heredity.Proofs.Chains
import Heredity.Proofs.Derivation
import Heredity.Proofs.Preparation
import Heredity.Proofs.Preservation

/-!
# Private routines of a base

A private routine answers calls of its own unit only.  What a base passes on may call its private
routines, by a bare call or by a call that is qualified with the name of the base; on the base both
are answered.  Inheritance looks for bare calls only: a routine with one is delegated, so that the
call is still made by the base.  A routine whose text has qualified calls alone is copied, and then
it is the extension that makes them.

* `Tree.Reaches` — a qualified call of one of certain keys of a unit.
* `Tree.reaches_qualified_iff` — qualifying adds no such call, but for imported keys.
* `Writing.Attained.concealed` — what is private in an image has a private key.
* `Registry.Shields` — what becomes of the private routines of a base in a record that is handed down:
  when it is delegated, and which calls of private routines are left in it.
* `Reachable.shields` — every inherited record of every session.
* `private_call_copied` — a routine that answers on the base and fails in the copy.

**Forwarders keep guards.**  A guard that calls what only the base has is dropped from a forwarder,
but again bare calls decide.  So a qualified call can be left in the guards of a delegated routine.
-/

namespace Heredity

/-! ## Qualified calls -/

namespace Tree

variable {unit : String} {keys : KeySet} {imports : Table Key String} {t : Tree}

/-- A tree has a qualified call of one of certain keys of a unit, at any depth. -/
def Reaches (unit : String) (keys : KeySet) (t : Tree) : Prop :=
  ∃ name args, .remoteCall unit name args ∈ t.walk ∧
    keys.contains (Key.ofCount name args.length) = true

/-- **The qualified calls of a qualified tree** are those of the tree, and its bare calls of imported
keys. -/
theorem remoteCall_mem_walk_qualified {name : String} {args : List Tree}
    (h : .remoteCall unit name args ∈ (qualified imports t).walk) :
    ∃ args', args'.length = args.length ∧
      (.remoteCall unit name args' ∈ t.walk ∨ .call name args' ∈ t.walk) := by
  obtain ⟨path, found⟩ := mem_walk_iff.1 h
  rw [qualified, at?_transform (children_qualifiedNode imports)] at found
  obtain ⟨n, inPlace, becomes⟩ := Option.map_eq_some_iff.1 found
  have inside : n ∈ t.walk := mem_walk_iff.2 ⟨path, inPlace⟩
  rw [← qualified, qualified_eq] at becomes
  cases n with
  | call name' args' =>
    simp only [mapChildren, qualifiedNode] at becomes
    split at becomes
    · cases becomes
      exact ⟨args', (List.length_map _).symm, .inr inside⟩
    · cases becomes
  | remoteCall unit' name' args' =>
    cases becomes
    exact ⟨args', (List.length_map _).symm, .inl inside⟩
  | _ => cases becomes

/-- A tree without bare calls of the keys has the same qualified calls of them when it is
qualified. -/
theorem reaches_qualified_iff (free : t.calls keys = false) :
    (qualified imports t).Reaches unit keys ↔ t.Reaches unit keys := by
  constructor
  · rintro ⟨name, args, inside, isKey⟩
    obtain ⟨args', length, written | called⟩ := remoteCall_mem_walk_qualified inside
    · exact ⟨name, args', written, by rwa [length]⟩
    · have other := contains_eq_false_of_calls free called
      rw [length, isKey] at other
      cases other
  · rintro ⟨name, args, inside, isKey⟩
    obtain ⟨path, found⟩ := mem_walk_iff.1 inside
    refine ⟨name, args.map (qualified imports), mem_walk_iff.2 ⟨path, ?_⟩, by rwa [List.length_map]⟩
    rw [qualified, at?_transform (children_qualifiedNode imports), found]
    show some (qualified imports _) = _
    rw [qualified_eq]
    rfl

/-- A forwarder calls nothing but the routine to which it forwards. -/
theorem not_reaches_forwarder {name : String} {params guards : List Tree} {stem : String}
    (other : keys.contains (Key.ofCount name params.length) = false) :
    ¬ (Tree.remoteCall unit name (forward params guards stem)).Reaches unit keys := by
  rintro ⟨name', args, inside, isKey⟩
  rw [walk_eq] at inside
  rcases List.mem_cons.1 inside with root | below
  · cases root
    rw [length_forward, other] at isKey
    cases isKey
  · obtain ⟨v, part, inside⟩ := List.mem_flatMap.1 below
    obtain ⟨named, -, rfl⟩ := List.mem_map.1 part
    cases List.mem_singleton.1 inside

end Tree

/-! ## Private routines in images -/

/-- What is private in the image has a private key. -/
def Writing.Concealed (w : Writing) : Prop :=
  ∀ key e, w.image.routines.get? key = some e → e.isPrivate = true →
    w.draft.privateKeys.contains key = true

/-- Holding a public routine leaves it at that. -/
theorem Writing.Concealed.hold {w : Writing} (h : w.Concealed) {e : Emission}
    (isPublic : e.isPrivate = false) : (w.hold e).Concealed := by
  intro key e' stored isPrivate
  rw [routines_hold] at stored
  refine Table.forall_insert_of_agree h (fun key agrees isPrivate => ?_) key e' stored isPrivate
  cases isPublic.symm.trans isPrivate

/-- **One event** leaves it at that, unless it puts an inherited routine in place that is private. -/
theorem Moves.concealed {w w' : Writing} {event : Event} (move : Moves w event w')
    (inherits : ∀ e, event = .inherit e → e.isPrivate = false) (h : w.Concealed) :
    w'.Concealed := by
  cases move with
  | declarePrivate =>
    intro key e stored isPrivate
    rw [Writing.draft_hold, Writing.draft_withDraft, OrderedSet.contains_add, Bool.or_eq_true]
    rw [Writing.routines_hold, Writing.image_withDraft, Table.get?_insert] at stored
    split at stored
    · next agrees => exact .inl agrees
    · exact .inr (h key e stored isPrivate)
  | declareLocal made isPublic => exact h.hold isPublic
  | declareRecorded made isPublic =>
    exact Writing.Concealed.hold (w := w.withDraft (w.draft.recorded _ _)) h isPublic
  | inherit => exact h.hold (inherits _ rfl)
  | declareInert | grant | withhold | importKey | setHooks | require | skip | close | complete =>
    exact h

/-- **What is private in an image has a private key.**  Inherited routines are public, and so is what
is declared at other keys. -/
theorem Writing.Attained.concealed {w : Writing} (h : w.Attained) : w.Concealed := by
  have own : ∀ event : Event, event.isOwn = true → ∀ e, event = .inherit e → e.isPrivate = false := by
    rintro _ isOwn e rfl
    cases isOwn
  induction h with
  | root config unit fields => exact fun _ _ stored => nomatch stored
  | extension attained closed resolved ownPre ownPost trace =>
    refine trace.invariant (fun w event w' member move => move.concealed ?_)
      (fun _ _ stored => nomatch stored)
    rcases List.mem_append.1 member with member | member
    · exact own event (ownPre event member)
    rcases List.mem_append.1 member with member | member
    · -- What is emitted for a record is public.
      obtain ⟨e, isEmission, rfl⟩ := List.mem_map.1 member
      rw [emissions_eq resolved] at isEmission
      obtain ⟨record, -, rfl⟩ := List.mem_map.1 isEmission
      rintro _ ⟨⟩
      rfl
    rcases List.mem_cons.1 member with rfl | member
    · exact own _ rfl
    · exact own event (ownPost event member)
  | move attained isOwn move ih => exact move.concealed (own _ isOwn) ih

/-! ## What is handed down -/

/-- **What becomes of the private routines of a base** in a record that is handed down: `r` becomes
`r'`. -/
structure Registry.Shields (config : Config) (base : Registry) (r r' : RoutineRecord) : Prop where
  /-- The routine is delegated exactly if its text has a bare call of what only the base has. -/
  delegated_iff : r'.origin = .delegated ↔
    Tree.routineCalls (base.triggers config) r.params r.guards r.body = true
  /-- So it is if its body or a guard has a bare call of a private routine. -/
  delegated : ∀ t ∈ r.body :: r.guards, t.calls base.privateKeys = true → r'.origin = .delegated
  /-- No bare call of a private routine is left. -/
  silent : ∀ t ∈ r'.body :: r'.guards, t.calls base.privateKeys = false
  /-- A qualified call of a private routine is left exactly if there is one in what is taken over:
  everything of a copy, and of a forwarder the guards without bare calls of what only the base
  has. -/
  reaches_iff : (∃ t ∈ r'.body :: r'.guards, t.Reaches base.unit base.privateKeys) ↔
    ∃ t ∈ r.body :: r.guards, t.Reaches base.unit base.privateKeys ∧
      (r'.origin = .copied ∨ t ∈ r.guards ∧ t.calls (base.triggers config) = false)

namespace Registry

variable {config : Config} {base : Registry} {name : String} {r r' : RoutineRecord}

/-- What calls nothing that only the base has calls no private routine of it. -/
theorem not_calls_private {t : Tree} (h : t.calls (base.triggers config) = false) :
    t.calls base.privateKeys = false := by
  rw [Bool.eq_false_iff] at h ⊢
  refine fun calls => h (Tree.calls_mono (fun key isPrivate => ?_) calls)
  unfold triggers
  split
  · rw [OrderedSet.contains_union, isPrivate, Bool.true_or]
  · exact isPrivate

/-- The body and the guards of a routine that is copied call nothing that only the base has. -/
theorem independent_parts
    (h : Tree.routineCalls (base.triggers config) r.params r.guards r.body = false) :
    ∀ t ∈ r.body :: r.guards, t.calls (base.triggers config) = false := by
  rw [Tree.routineCalls, Bool.or_eq_false_iff, Bool.or_eq_false_iff] at h
  obtain ⟨⟨inBody, inGuards⟩, -⟩ := h
  exact List.forall_mem_cons.2
    ⟨inBody, fun t isGuard => by simpa using List.any_eq_false.1 inGuards t isGuard⟩

/-- **A copy** has the calls of the original. -/
theorem shields_of_copied
    (independent : Tree.routineCalls (base.triggers config) r.params r.guards r.body = false)
    (made : r' = { base.copied config r with permitted := r'.permitted }) :
    base.Shields config r r' := by
  have origin : r'.origin = .copied := by rw [made]; rfl
  have parts : r'.body :: r'.guards = (r.body :: r.guards).map (Tree.qualified base.imports) := by
    rw [made]
    rfl
  have free : ∀ t ∈ r.body :: r.guards, t.calls base.privateKeys = false :=
    fun t isPart => not_calls_private (independent_parts independent t isPart)
  refine ⟨?_, ?_, ?_, ?_⟩
  · rw [origin, independent]
    exact iff_of_false nofun Bool.false_ne_true
  · intro t isPart calls
    exact absurd calls (Bool.eq_false_iff.1 (free t isPart))
  · rw [parts]
    intro t' isPart
    obtain ⟨t, original, rfl⟩ := List.mem_map.1 isPart
    exact Bool.eq_false_iff.2 fun calls =>
      Bool.eq_false_iff.1 (free t original) (Tree.calls_of_calls_qualified calls)
  · rw [parts]
    constructor
    · rintro ⟨t', isPart, reaches⟩
      obtain ⟨t, original, rfl⟩ := List.mem_map.1 isPart
      exact ⟨t, original, (Tree.reaches_qualified_iff (free t original)).1 reaches, .inl origin⟩
    · rintro ⟨t, original, reaches, -⟩
      exact ⟨_, List.mem_map_of_mem original,
        (Tree.reaches_qualified_iff (free t original)).2 reaches⟩

/-- **A forwarder** has the calls of the guards that it keeps, if it forwards to a public routine. -/
theorem shields_of_delegated
    (isPublic : base.privateKeys.contains (Key.ofCount name r.params.length) = false)
    (dependent : Tree.routineCalls (base.triggers config) r.params r.guards r.body = true)
    (made : r' = { delegateRoutine config base name r with permitted := r'.permitted }) :
    base.Shields config r r' := by
  have origin : r'.origin = .delegated := by rw [made]; rfl
  have parts : r'.body :: r'.guards =
      .remoteCall base.unit name (Tree.forward r.params r.guards config.stem) ::
        r.guards.filter fun g => !g.calls (base.triggers config) := by
    rw [made]
    rfl
  refine ⟨?_, fun _ _ _ => origin, ?_, ?_⟩
  · rw [origin, dependent]
    exact iff_of_true rfl rfl
  · rw [parts]
    refine List.forall_mem_cons.2 ⟨Tree.calls_forwarder _ _ _ _ _ _, fun t isKept => ?_⟩
    exact not_calls_private (by simpa using (List.mem_filter.1 isKept).2)
  · rw [parts]
    constructor
    · rintro ⟨t, isPart, reaches⟩
      rcases List.mem_cons.1 isPart with rfl | isKept
      · exact absurd reaches (Tree.not_reaches_forwarder isPublic)
      · obtain ⟨isGuard, kept⟩ := List.mem_filter.1 isKept
        exact ⟨t, List.mem_cons_of_mem _ isGuard, reaches, .inr ⟨isGuard, by simpa using kept⟩⟩
    · rintro ⟨t, -, reaches, copied | ⟨isGuard, kept⟩⟩
      · cases origin.symm.trans copied
      · exact ⟨t, List.mem_cons_of_mem _ (List.mem_filter.2 ⟨isGuard, by simp [kept]⟩), reaches⟩

end Registry

namespace Workspace

variable {w : Workspace}

/-- What a published unit records is not private. -/
theorem Coherent.published_isPublic (h : w.Coherent) {unit : String} {registry : Registry}
    (published : w.store.get? unit = some registry) {key : Key} {r : RoutineRecord}
    (recorded : registry.routines.get? key = some r) :
    registry.privateKeys.contains key = false := by
  obtain ⟨s, session, -, rfl⟩ := h.published published
  obtain ⟨-, image, -, attained⟩ := h.session session
  rw [Bool.eq_false_iff]
  intro isPrivate
  have unrecorded := (Table.get?_eq_none_iff _ _).2 (attained.apart.hidden isPrivate)
  cases recorded.symm.trans unrecorded

/-- A published unit answers every caller at a key that it holds and that is not private. -/
theorem Coherent.callee_of_notPrivate (h : w.Coherent) {unit : String} {registry : Registry}
    {image : Image} (published : w.store.get? unit = some registry)
    (held : w.program.units.get? unit = some image) {key : Key} {e : Emission}
    (stored : image.routines.get? key = some e)
    (notPrivate : registry.privateKeys.contains key = false) (caller : Option String) :
    Program.callee image unit key caller = .ok e := by
  obtain ⟨s, session, -, rfl⟩ := h.published published
  obtain ⟨-, image', held', attained⟩ := h.session session
  cases held.symm.trans held'
  have isPublic : e.isPrivate = false := by
    rw [Bool.eq_false_iff]
    intro isPrivate
    exact Bool.false_ne_true
      (notPrivate.symm.trans (attained.concealed key e stored isPrivate))
  exact Program.callee_of_public stored isPublic unit caller

/-- **Private routines of a base.**  In every workspace that commands lead to, let a unit extend
another one.  What the base passes on, the unit records or has withheld.  A record that it still
inherits is delegated exactly if the text of the original has a bare call of what only the base has,
so in particular if its body or a guard has a bare call of a private routine, and it has no such call
itself.  It has a qualified call of a private routine of the base exactly if the text that was taken
over has one.  If the original has none, the base answers every qualified call that the record makes
of a routine in its image, whoever calls. -/
theorem Reachable.shields (h : w.Reachable) {unit base : String} {s : Session}
    (session : w.sessions.get? unit = some s) (isBase : s.draft.base = some base) :
    ∃ registry baseImage, w.store.get? base = some registry ∧ registry.unit = base ∧
      w.program.units.get? base = some baseImage ∧
      ∀ key r, registry.routines.get? key = some r → registry.withheld.contains key = false →
        (s.draft.routines.contains key = true ∨ s.draft.withheld.contains key = true) ∧
        ∀ r', s.draft.routines.get? key = some r' → r'.inherited = true →
          registry.Shields s.config r r' ∧
          ((∀ t ∈ r.body :: r.guards, ¬ t.Reaches base registry.privateKeys) →
            ∀ t ∈ r'.body :: r'.guards, ∀ name args e, .remoteCall base name args ∈ t.walk →
              baseImage.routines.get? (Key.ofCount name args.length) = some e →
              ∀ caller, Program.callee baseImage base (Key.ofCount name args.length) caller =
                .ok e) := by
  obtain ⟨registry, published, extends'⟩ := h.extends_base session isBase
  obtain ⟨s₀, session₀, -, -⟩ := h.coherent.published published
  obtain ⟨-, baseImage, baseHeld, -⟩ := h.coherent.session session₀
  obtain rfl := h.coherent.published_unit published
  refine ⟨registry, baseImage, published, rfl, baseHeld, fun key r original passedOn => ?_⟩
  have isRecorded := Table.contains_iff_exists_get?.2 ⟨r, original⟩
  refine ⟨extends'.kept isRecorded passedOn, fun r' recorded inherited => ?_⟩
  obtain ⟨r₀, original₀, -, handed⟩ := extends'.handedDown recorded inherited
  cases original₀.symm.trans original
  have shields : registry.Shields s.config r r' := by
    cases handed with
    | copied independent made => exact Registry.shields_of_copied independent made
    | delegated dependent made =>
      have isKey : (Key.ofCount key.name r.params.length == key) = true :=
        Key.beq_iff.2 ⟨rfl, h.coherent.published_sized published key r original⟩
      refine Registry.shields_of_delegated ?_ dependent made
      rw [Table.contains_congr _ isKey]
      exact h.coherent.published_isPublic published original
  refine ⟨shields, fun none t isPart name args e inside stored => ?_⟩
  refine h.coherent.callee_of_notPrivate published baseHeld stored (Bool.eq_false_iff.2 ?_)
  intro isPrivate
  obtain ⟨t₀, isText, reaches, -⟩ :=
    shields.reaches_iff.1 ⟨t, isPart, name, args, inside, isPrivate⟩
  exact none t₀ isText reaches

/-- The commands by which a unit is extended that calls a private routine in three ways: in a body by
its bare name, in a body by its qualified name, and by its qualified name in the guard of a routine
that also calls it by its bare name. -/
def privateCommands : List Command :=
  [.openRoot {} "base" (.list []),
    .define "base" ⟨"secret", [], .literal (.int 42), [], true, false⟩,
    .define "base" ⟨"bare", [], .tuple [.call "secret" []], [], false, false⟩,
    .define "base" ⟨"qualified", [], .remoteCall "base" "secret" [], [], false, false⟩,
    .define "base" ⟨"guarded", [], .call "secret" [], [.remoteCall "base" "secret" []], false,
      false⟩,
    .finish "base",
    .openExtension {} "child" "base" (.list []),
    .finish "child"]

/-- The routine with the bare call is delegated.  The one with the qualified call is copied with it,
since the text that was taken over has it. -/
theorem shields_privateCommands :
    ∃ s bare qualified, (afterAll ∅ privateCommands).sessions.get? "child" = some s ∧
      s.draft.routines.get? (.ofCount "bare" 0) = some bare ∧ bare.origin = .delegated ∧
      s.draft.routines.get? (.ofCount "qualified" 0) = some qualified ∧
      qualified.origin = .copied ∧
      ∃ t ∈ qualified.body :: qualified.guards, ∃ name args, .remoteCall "base" name args ∈ t.walk := by
  have evaluated : ((afterAll ∅ privateCommands).sessions.get? "child").map (fun s =>
        (s.draft.base, (s.draft.routines.get? (.ofCount "bare" 0)).map RoutineRecord.inherited,
          (s.draft.routines.get? (.ofCount "qualified" 0)).map RoutineRecord.origin)) =
        some (some "base", some true, some .copied) ∧
      ((afterAll ∅ privateCommands).store.get? "base").map (fun registry =>
        (registry.privateKeys.contains (.ofCount "secret" 0),
          registry.withheld.contains (.ofCount "bare" 0),
          registry.withheld.contains (.ofCount "qualified" 0),
          (registry.routines.get? (.ofCount "bare" 0)).map fun r =>
            r.body.calls registry.privateKeys,
          (registry.routines.get? (.ofCount "qualified" 0)).map RoutineRecord.body)) =
        some (true, false, false, some true, some (.remoteCall "base" "secret" [])) := by
    cbv
  obtain ⟨extended, published⟩ := evaluated
  obtain ⟨s, session, facts⟩ := Option.map_eq_some_iff.1 extended
  simp only [Prod.mk.injEq] at facts
  obtain ⟨isBase, ofBare, ofQualified⟩ := facts
  obtain ⟨bare, bareRecorded, bareInherited⟩ := Option.map_eq_some_iff.1 ofBare
  obtain ⟨qualified, qualifiedRecorded, isCopy⟩ := Option.map_eq_some_iff.1 ofQualified
  obtain ⟨registry, baseImage, stored, named, -, shields⟩ :=
    Reachable.shields (Reachable.empty.afterAll privateCommands) session isBase
  rw [stored, Option.map_some, Option.some.injEq] at published
  simp only [Prod.mk.injEq] at published
  obtain ⟨isPrivate, barePassedOn, qualifiedPassedOn, bareText, qualifiedText⟩ := published
  obtain ⟨bare₀, bareOriginal, calls⟩ := Option.map_eq_some_iff.1 bareText
  obtain ⟨qualified₀, qualifiedOriginal, body⟩ := Option.map_eq_some_iff.1 qualifiedText
  obtain ⟨ofBare, -⟩ := (shields _ bare₀ bareOriginal barePassedOn).2 bare bareRecorded bareInherited
  obtain ⟨ofQualified, -⟩ := (shields _ qualified₀ qualifiedOriginal qualifiedPassedOn).2 qualified
    qualifiedRecorded (by rw [RoutineRecord.inherited, isCopy]; rfl)
  have reaches : qualified₀.body.Reaches registry.unit registry.privateKeys := by
    rw [named, body]
    exact ⟨"secret", [], Tree.self_mem_walk _, isPrivate⟩
  obtain ⟨t, isPart, name, args, inside, -⟩ :=
    ofQualified.reaches_iff.2 ⟨_, List.mem_cons_self, reaches, .inl isCopy⟩
  exact ⟨s, bare, qualified, session, bareRecorded,
    ofBare.delegated _ List.mem_cons_self calls, qualifiedRecorded, isCopy, t, isPart, name, args,
    named ▸ inside⟩

/-- **A private routine that is called by its qualified name.**  The base passes on a routine whose
body is such a call, and answers it.  The extension has a copy of it, and fails, since it is the
extension now that calls the private routine.  A forwarder fails as well, in the guard that it has
kept. -/
theorem private_call_copied :
    ((afterAll ∅ privateCommands).store.get? "base").map (fun registry =>
        (registry.privateKeys.contains (.ofCount "secret" 0),
          (registry.routines.get? (.ofCount "qualified" 0)).map RoutineRecord.body)) =
        some (true, some (.remoteCall "base" "secret" [])) ∧
      ((afterAll ∅ privateCommands).store.get? "child").map (fun registry =>
        (registry.routines.get? (.ofCount "qualified" 0)).map RoutineRecord.origin) =
        some (some .copied) ∧
      (afterAll ∅ privateCommands).program.call "base" "qualified" [] = .ok (.int 42) ∧
      (afterAll ∅ privateCommands).program.call "child" "qualified" [] =
        .error (.undefinedRoutine "base" (.ofCount "secret" 0)) ∧
      (afterAll ∅ privateCommands).program.call "base" "guarded" [] = .ok (.int 42) ∧
      (afterAll ∅ privateCommands).program.call "child" "guarded" [] =
        .error (.undefinedRoutine "base" (.ofCount "secret" 0)) := by
  cbv

end Workspace

end Heredity
