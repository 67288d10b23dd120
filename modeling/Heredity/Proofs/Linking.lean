import Heredity.Proofs.Agreement
import Heredity.Proofs.Opening

/-!
# No dangling calls

A bare call is answered by the unit that executes the body.  If what a base has in its image calls
only what is in that image, the same holds of an extension that has just been opened, although the
extension has neither the private routines of the base nor those that it withholds.

* `Tree.CallsOnly` — every bare call in a tree is of a key with a property.
* `Image.Linked` — the bodies and guards in an image call only what is in the image.
* `callsOnly_inherited` — inherited bodies and guards call only what the base offers.
* `Reachable.linked_of_extension` — the image of a new extension is linked.

**Two facts meet.**  The keys of an image are recorded, private or withheld, since registry and
image agree; and whatever calls a private or withheld key is not taken over, since routines with
such calls are delegated and guards with such calls are dropped.
-/

namespace Heredity

/-- Every bare call in a tree is of a key with a property. -/
def Tree.CallsOnly (P : Key → Prop) (t : Tree) : Prop :=
  ∀ name args, .call name args ∈ t.walk → P (Key.ofCount name args.length)

/-- The bodies and guards of an image call only keys of the image by bare calls. -/
def Image.Linked (image : Image) : Prop :=
  ∀ key e, image.routines.get? key = some e →
    e.body.CallsOnly (image.routines.contains · = true) ∧
      ∀ guard ∈ e.guards, guard.CallsOnly (image.routines.contains · = true)

namespace Tree.CallsOnly

variable {P Q : Key → Prop} {t : Tree}

instance [DecidablePred P] (t : Tree) : Decidable (t.CallsOnly P) :=
  decidable_of_iff (∀ n ∈ t.walk, ∀ key ∈ n.calledKey?, P key) <| by
    constructor
    · exact fun h name args member => h _ member _ rfl
    · intro h n member key called
      cases n with
      | call name args =>
        cases called
        exact h name args member
      | _ => cases called

theorem mono (h : t.CallsOnly P) (sub : ∀ key, P key → Q key) : t.CallsOnly Q :=
  fun name args member => sub _ (h name args member)

/-- Qualifying adds no bare calls. -/
theorem qualified (h : t.CallsOnly P) (imports : Table Key String) :
    (t.qualified imports).CallsOnly P := by
  intro name args member
  obtain ⟨args', member', length⟩ := call_mem_walk_qualified member
  rw [← length]
  exact h name args' member'

/-- Variables that are passed on call nothing. -/
theorem remoteCall_vars (unit name : String) {vars : List Tree}
    (h : ∀ v ∈ vars, ∃ x, v = .var x) : (Tree.remoteCall unit name vars).CallsOnly P := by
  intro name' args member
  rw [walk_eq] at member
  rcases List.mem_cons.1 member with root | below
  · cases root
  · obtain ⟨v, part, inside⟩ := List.mem_flatMap.1 below
    obtain ⟨x, rfl⟩ := h v part
    cases List.mem_singleton.1 inside

end Tree.CallsOnly

instance (image : Image) : Decidable image.Linked :=
  decidable_of_iff (∀ e ∈ image.routines.values,
      e.body.CallsOnly (image.routines.contains · = true) ∧
        ∀ guard ∈ e.guards, guard.CallsOnly (image.routines.contains · = true))
    Table.forall_get?_iff.symm

section Inheritance

variable {config : Config} {registry : Registry} {image : Image} {t : Tree}

/-- What calls keys of the image, but no private or withheld one, calls only what is offered. -/
theorem callsOnly_offers (delegates : config.delegateWithheld = true)
    (accounted : ∀ key, image.routines.contains key = true →
      registry.routines.contains key = true ∨ registry.privateKeys.contains key = true ∨
        registry.withheld.contains key = true)
    (linked : t.CallsOnly (image.routines.contains · = true))
    (independent : t.calls (registry.triggers config) = false) : t.CallsOnly registry.Offers := by
  intro name args member
  have safe := Tree.contains_eq_false_of_calls independent member
  exact Registry.offers_of_not_triggers delegates (accounted _ (linked name args member)) safe

/-- **One routine.**  Whether it is copied or delegated, its body and its guards call only what the
base offers. -/
theorem callsOnly_inherited (delegates : config.delegateWithheld = true)
    (accounted : ∀ key, image.routines.contains key = true →
      registry.routines.contains key = true ∨ registry.privateKeys.contains key = true ∨
        registry.withheld.contains key = true)
    {key : Key} {r r' : RoutineRecord} {needs : List String}
    (body : r.body.CallsOnly (image.routines.contains · = true))
    (guards : ∀ guard ∈ r.guards, guard.CallsOnly (image.routines.contains · = true))
    (becomes : inheritRoutine config registry key r = .ok (r', needs)) :
    r'.body.CallsOnly registry.Offers ∧ ∀ guard ∈ r'.guards, guard.CallsOnly registry.Offers := by
  rcases inheritRoutine_eq_ok becomes with rfl | ⟨independent, rfl⟩
  · constructor
    · refine Tree.CallsOnly.remoteCall_vars _ _ fun v member => ?_
      obtain ⟨named, -, rfl⟩ := List.mem_map.1 member
      exact ⟨named.name, rfl⟩
    · intro guard member
      obtain ⟨original, kept⟩ := List.mem_filter.1 member
      refine callsOnly_offers delegates accounted (guards guard original) ?_
      simpa using kept
  · rw [Tree.routineCalls, Bool.or_eq_false_iff, Bool.or_eq_false_iff] at independent
    obtain ⟨⟨inBody, inGuards⟩, -⟩ := independent
    constructor
    · exact (callsOnly_offers delegates accounted body inBody).qualified _
    · intro guard member
      obtain ⟨original, isGuard, rfl⟩ := List.mem_map.1 member
      have inGuard : original.calls (registry.triggers config) = false := by
        simpa using List.any_eq_false.1 inGuards original isGuard
      exact (callsOnly_offers delegates accounted (guards original isGuard) inGuard).qualified _

end Inheritance

namespace Workspace

/-- **No dangling calls.**  If the image of a published unit without hooks is linked, the image of a
new extension is linked, and no bare call in it is of a key that is private to the base or withheld
by it. -/
theorem Reachable.linked_of_extension {w : Workspace} (h : w.Reachable) {config : Config}
    {unit base : String} {fields : Value} {reply : Reply} {registry : Registry} {image : Image}
    (published : w.store.get? base = some registry) (free : registry.HookFree)
    (held : w.program.units.get? base = some image) (linked : image.Linked)
    (delegates : config.delegateWithheld = true)
    (opens : w.outcome (.openExtension config unit base fields) = .ok reply) :
    ∃ image', (w.after (.openExtension config unit base fields)).program.units.get? unit =
        some image' ∧
      image'.Linked ∧
      ∀ key e, image'.routines.get? key = some e → ∀ t ∈ e.body :: e.guards,
        t.CallsOnly fun called =>
          registry.privateKeys.contains called = false ∧
            registry.withheld.contains called = false := by
  obtain ⟨-, present, accounted, -⟩ := h.coherent.published_agrees published held
  obtain ⟨resolution, s, image', resolved, -, held', fresh⟩ :=
    opened_extension published free opens
  -- Everything in the new image is inherited, so it calls only what the base offers.
  have offered : ∀ {key e}, image'.routines.get? key = some e →
      ∀ t ∈ e.body :: e.guards, t.CallsOnly registry.Offers := by
    intro key e stored t member
    obtain ⟨key', r', entry, -, rfl⟩ := fresh.get?_iff.1 stored
    have recorded' := Table.get?_eq_some_iff.2 ⟨key', entry, BEq.rfl⟩
    obtain ⟨r, needs, recorded, -, becomes⟩ := (get?_inherited_iff resolved).1 recorded'
    obtain ⟨original, stored, carries⟩ := present recorded
    obtain ⟨body, guards⟩ := linked key' original stored
    rw [carries.body] at body
    rw [carries.guards] at guards
    obtain ⟨body', guards'⟩ :=
      callsOnly_inherited delegates (fun _ => accounted) body guards becomes
    rcases List.mem_cons.1 member with rfl | member
    · exact body'
    · exact guards' t member
  -- What the base offers, the extension has.
  have gets : ∀ key, registry.Offers key → image'.routines.contains key = true := by
    intro key offers
    obtain ⟨r, recorded⟩ := Table.contains_iff_exists_get?.1 offers.recorded
    obtain ⟨key', r', needs, -, -, -, stored⟩ :=
      fresh.exists_inherited resolved recorded offers.passedOn
    exact Table.contains_iff_exists_get?.2 ⟨_, stored⟩
  refine ⟨image', held', fun key e stored => ⟨?_, fun guard member => ?_⟩, ?_⟩
  · exact (offered stored _ List.mem_cons_self).mono gets
  · exact (offered stored guard (List.mem_cons_of_mem _ member)).mono gets
  · intro key e stored t member
    exact (offered stored t member).mono fun called offers => ⟨offers.isPublic, offers.passedOn⟩

/-- A workspace in which a unit is published of whose routines one is private, one calls it in its
body and in its guard, and one calls that one. -/
def linkedWorkspace : Workspace :=
  afterAll ∅ [.openRoot {} "base" (.list []),
    .define "base" ⟨"secret", [], .literal (.text "base"), [], true, false⟩,
    .define "base" ⟨"greet", [], .call "secret" [], [.call "secret" []], false, false⟩,
    .define "base" ⟨"twice", [], .list [.call "greet" [], .call "greet" []],
      [.call "greet" []], false, false⟩,
    .finish "base"]

/-- The image of that unit. -/
def linkedImage : Image :=
  { base := none
    fields := ∅
    routines := .ofList
      [(.ofCount "secret" 0,
        { key := .ofCount "secret" 0, params := [], guards := []
          body := .literal (.text "base"), origin := .native, isPrivate := true }),
        (.ofCount "greet" 0,
          { key := .ofCount "greet" 0, params := [], guards := [.call "secret" []]
            body := .call "secret" [], origin := .native }),
        (.ofCount "twice" 0,
          { key := .ofCount "twice" 0, params := [], guards := [.call "greet" []]
            body := .list [.call "greet" [], .call "greet" []], origin := .native })]
    closed := true }

/-- An extension of that unit is linked, with one routine delegated and one copied. -/
theorem linked_of_linkedWorkspace :
    ∃ registry, linkedWorkspace.store.get? "base" = some registry ∧
      ∃ image, (linkedWorkspace.after
          (.openExtension {} "child" "base" (.list []))).program.units.get? "child" = some image ∧
        image.Linked ∧
        ∀ key e, image.routines.get? key = some e → ∀ t ∈ e.body :: e.guards,
          t.CallsOnly fun called =>
            registry.privateKeys.contains called = false ∧
              registry.withheld.contains called = false := by
  have evaluated : ((linkedWorkspace.store.get? "base").map
        fun registry => (registry.preHook, registry.postHook)) = some (none, none) ∧
      linkedWorkspace.program.units.get? "base" = some linkedImage ∧
      linkedWorkspace.outcome (.openExtension {} "child" "base" (.list [])) = .ok .done := by
    cbv
  obtain ⟨stored, held, opens⟩ := evaluated
  obtain ⟨registry, published, hooks⟩ := Option.map_eq_some_iff.1 stored
  have reachable : linkedWorkspace.Reachable := Reachable.empty.afterAll _
  have free : registry.HookFree := ⟨congrArg Prod.fst hooks, congrArg Prod.snd hooks⟩
  have linked : linkedImage.Linked := by decide
  exact ⟨registry, published,
    Reachable.linked_of_extension reachable published free held linked rfl opens⟩

end Workspace

end Heredity
