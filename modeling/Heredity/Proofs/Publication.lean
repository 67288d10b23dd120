import Mathlib
import Heredity.Evaluation
import Heredity.Proofs.Histories

/-!
# Published units

When a unit is published its draft is closed, so nothing can be recorded any more.  But declarations
write the image of the unit directly, and one that is not to be recorded does not ask whether the
draft is closed.  This file says what can still happen to a published unit.

* `Treatment.IsLate` — the declarations that a session still accepts then.
* `Image.Outlasts` — what they leave of an image.
* `Trace.outlasts` — any own events leave that of a complete image.
* `Reachable.published_stays` — a published registry stays for good, and the image of its unit but
  for late declarations.

**Late declarations are all that matters.**  Everything of a complete image but the routines and the
requirements stays in any case, and without late declarations the image stays as a whole.
-/

namespace Heredity

open Treatment (latest)

/-- What a session accepts when its unit is complete: what stays without effect, and public routines
at withheld keys. -/
def Treatment.IsLate (registry : Registry) (t : Treatment) : Prop :=
  t.admission = .inert ∨
    (t.admission = .isLocal ∧ t.emission.isPrivate = false ∧
      registry.withheld.contains t.emission.key = true)

/-- What late declarations leave of an image. -/
structure Image.Outlasts (image : Image) (registry : Registry) (history : List Treatment)
    (image' : Image) : Prop where
  /-- All declarations are late. -/
  late : ∀ t ∈ history, t.IsLate registry
  /-- The base stays. -/
  base : image'.base = image.base
  /-- The fields stay. -/
  fields : image'.fields = image.fields
  /-- What is withheld stays. -/
  withheld : image'.withheld = image.withheld
  /-- The image stays complete. -/
  closed : image'.closed = image.closed
  /-- The routines stay, but for those that are declared late. -/
  routines : ∀ key,
    image'.routines.get? key = (latest key history).or (image.routines.get? key)
  /-- What is required stays required. -/
  required : ∀ other, image.requires.contains other = true → image'.requires.contains other = true
  /-- What is required besides is called by a late declaration. -/
  called : ∀ other, image'.requires.contains other = true →
    image.requires.contains other = true ∨ ∃ t ∈ history, t.units.contains other = true
  /-- Without declarations that take effect or call other units, the image stays as a whole. -/
  same : (∀ t ∈ history, t.admission = .inert ∧ t.units.toList = []) → image' = image

namespace Writing

/-- A complete unit is still the one that it was, but for the routines and requirements of its
image, and what it has declared since is late. -/
structure Kept (w : Writing) (past : List Treatment) (v : Writing) : Prop where
  /-- It is complete. -/
  complete : v.Complete
  /-- The draft is the same. -/
  draft : v.draft = w.draft
  /-- The base is the same. -/
  base : v.image.base = w.image.base
  /-- The fields are the same. -/
  fields : v.image.fields = w.image.fields
  /-- All declarations are late. -/
  late : ∀ t ∈ past, t.IsLate w.draft.toRegistry

/-- **One own event of a complete unit.** -/
theorem Kept.step {w v v' : Writing} {past : List Treatment} {event : Event} (h : w.Kept past v)
    (own : event.isOwn = true) (move : Moves v event v') :
    w.Kept (past ++ event.treatments) v' := by
  have closed := h.complete.draft
  suffices kept : v'.image.base = v.image.base ∧ v'.image.fields = v.image.fields ∧
      ∀ t ∈ event.treatments, t.IsLate w.draft.toRegistry from
    ⟨move.stays_complete h.complete, (move.draft_eq_of_closed closed).trans h.draft,
      kept.1.trans h.base, kept.2.1.trans h.fields, List.forall_mem_append.2 ⟨h.late, kept.2.2⟩⟩
  cases move with
  -- What writes the draft is refused.
  | declarePrivate _ _ writable | declareRecorded _ _ writable | grant writable
  | withhold writable | importKey writable | setHooks writable | close writable =>
    exact absurd (writable.symm.trans closed) Bool.false_ne_true
  | skip | inherit => cases own
  | declareLocal made isPublic notPrivate withheld =>
    rw [h.draft] at withheld
    exact ⟨rfl, rfl, List.forall_mem_singleton.2 (.inr ⟨rfl, isPublic, withheld⟩)⟩
  | declareInert => exact ⟨rfl, rfl, List.forall_mem_singleton.2 (.inl rfl)⟩
  | require | complete => exact ⟨rfl, rfl, List.forall_mem_nil _⟩

end Writing

namespace Trace

variable {w w' : Writing} {events : List Event} {history : List Treatment}

theorem kept (trace : Trace w events w') (accounts : Accounts events history)
    (complete : w.Complete) : w.Kept history w' :=
  trace.recounted accounts (fun own move kept => kept.step own move)
    ⟨complete, rfl, rfl, rfl, List.forall_mem_nil _⟩

/-- Requirements are never given up. -/
theorem required_mono (trace : Trace w events w') {other : String}
    (required : w.image.requires.contains other = true) :
    w'.image.requires.contains other = true :=
  trace.invariant (I := fun v => v.image.requires.contains other = true)
    (fun _ _ _ _ move required => by
      cases move with
      | require =>
        rw [OrderedSet.contains_addAll, required, Bool.or_true]
      | _ => exact required) required

/-- A unit that is required at the end was so at the beginning, or is required by an event. -/
theorem exists_require (trace : Trace w events w') {other : String}
    (required : w'.image.requires.contains other = true) :
    w.image.requires.contains other = true ∨ ∃ units, .require units ∈ events ∧ other ∈ units :=
  trace.invariant
    (I := fun v => v.image.requires.contains other = true →
      w.image.requires.contains other = true ∨ ∃ units, .require units ∈ events ∧ other ∈ units)
    (fun _ _ _ member move before required => by
      cases move with
      | @require units =>
        rw [OrderedSet.contains_addAll, Bool.or_eq_true, List.any_eq_true] at required
        rcases required with ⟨unit, listed, same⟩ | required
        · exact .inr ⟨units, member, eq_of_beq same ▸ List.mem_of_mem_filter listed⟩
        · exact before required
      | _ => exact before required) .inl required

/-- Inert declarations that call no other units leave the image of a complete unit as it is. -/
theorem image_eq_of_inert (trace : Trace w events w') (accounts : Accounts events history)
    (complete : w.Complete)
    (idle : ∀ t ∈ history, t.admission = .inert ∧ t.units.toList = []) :
    w'.image = w.image := by
  refine (trace.invariant (I := fun v => v.Complete ∧ v.image = w.image)
    (fun v event v' member move h => ⟨move.stays_complete h.1, ?_⟩) ⟨complete, rfl⟩).2
  rw [← h.2]
  have own := accounts.own event member
  have treated : ∀ {t}, event.treatment? = some t → t ∈ history := fun isTreated =>
    accounts.treated ▸ List.mem_filterMap.2 ⟨event, member, isTreated⟩
  cases move with
  | declarePrivate _ _ writable | declareRecorded _ _ writable | grant writable
  | withhold writable | importKey writable | setHooks writable | close writable =>
    exact absurd (writable.symm.trans h.1.draft) Bool.false_ne_true
  | skip | inherit => cases own
  | declareLocal => exact nomatch (idle _ (treated rfl)).1
  | declareInert => rfl
  | require =>
    obtain ⟨t, isTreated, rfl⟩ := accounts.required _ member
    rw [(idle t isTreated).2]
    rfl
  | complete =>
    show { v.image with withheld := v.draft.withheld, closed := true } = v.image
    rw [← h.1.withheld, ← h.1.image]

/-- **A complete image outlasts all own events.** -/
theorem outlasts (trace : Trace w events w') (accounts : Accounts events history)
    (complete : w.Complete) :
    w.image.Outlasts w.draft.toRegistry history w'.image := by
  have kept := trace.kept accounts complete
  have draft : w'.draft = w.draft := kept.draft
  refine ⟨kept.late, kept.base, kept.fields, ?_, ?_, trace.get?_of_accounts accounts,
    fun other => trace.required_mono, fun other required => ?_,
    trace.image_eq_of_inert accounts complete⟩
  · rw [kept.complete.withheld, draft, complete.withheld]
  · rw [kept.complete.image, complete.image]
  · refine (trace.exists_require required).imp_right ?_
    rintro ⟨units, member, listed⟩
    obtain ⟨t, isTreated, rfl⟩ := accounts.required units member
    exact ⟨t, isTreated, OrderedSet.mem_toList.1 listed⟩

end Trace

namespace Workspace

/-- **Published units stay.**  In every workspace that commands lead to, let a unit be published,
and let any commands follow, failing ones included.  Its registry stays what it is.  All that its
session still treats are late declarations, and they are all that its image can change by. -/
theorem Reachable.published_stays {w : Workspace} (h : w.Reachable) {unit : String}
    {registry : Registry} (published : w.store.get? unit = some registry)
    (commands : List Command) :
    (w.afterAll commands).store.get? unit = some registry ∧
      ∃ image image', w.program.units.get? unit = some image ∧
        (w.afterAll commands).program.units.get? unit = some image' ∧
        image.Outlasts registry (w.history unit commands) image' := by
  refine ⟨h.coherent.store_afterAll published commands, ?_⟩
  obtain ⟨s, session, -, rfl⟩ := h.coherent.published published
  obtain ⟨-, image, held, -⟩ := h.coherent.session session
  have complete := h.coherent.completed published session held
  obtain ⟨s', image', events, -, held', trace, accounts⟩ :=
    h.coherent.recounts_afterAll session held commands
  exact ⟨image, image', held, held', trace.outlasts accounts complete⟩

/-- The commands by which a unit is published that withholds a routine. -/
def closingCommands : List Command :=
  [.openRoot {} "unit" (.list []),
    .define "unit" ⟨"greet", [], .literal (.text "before"), [], false, false⟩,
    .withhold "unit" (.ofCount "greet" 0),
    .finish "unit"]

/-- A declaration for the published unit. -/
def lateDefinition (name : String) : Command :=
  .define "unit" ⟨name, [], .literal (.text "after"), [], false, false⟩

/-- Another session cannot change a published unit, and neither can its own with a declaration that
would be recorded. -/
theorem published_stays_closing :
    ∃ registry image,
      (afterAll ∅ closingCommands).store.get? "unit" = some registry ∧
      (afterAll ∅ closingCommands).program.units.get? "unit" = some image ∧
      ((afterAll ∅ closingCommands).afterAll [.openExtension {} "other" "unit" (.list []),
        lateDefinition "other"]).store.get? "unit" = some registry ∧
      ((afterAll ∅ closingCommands).afterAll [.openExtension {} "other" "unit" (.list []),
        lateDefinition "other"]).program.units.get? "unit" = some image := by
  have evaluated : ((afterAll ∅ closingCommands).store.get? "unit").isSome = true ∧
      (afterAll ∅ closingCommands).history "unit"
        [.openExtension {} "other" "unit" (.list []), lateDefinition "other"] = [] := by
    cbv
  obtain ⟨isPublished, silent⟩ := evaluated
  obtain ⟨registry, published⟩ := Option.isSome_iff_exists.1 isPublished
  obtain ⟨stays, image, image', held, held', outlasts⟩ :=
    Reachable.published_stays (Reachable.empty.afterAll closingCommands) published
      [.openExtension {} "other" "unit" (.list []), lateDefinition "other"]
  rw [silent] at outlasts
  exact ⟨registry, image, published, held, stays, outlasts.same (List.forall_mem_nil _) ▸ held'⟩

/-- **A published unit can change.**  Its session still accepts a declaration at a key that the unit
withholds, while it refuses one at another key as coming too late; and calls of the routine reach
the new one from then on. -/
theorem published_routine_replaced :
    (∃ reply, (afterAll ∅ closingCommands).outcome (lateDefinition "greet") = .ok reply) ∧
      (afterAll ∅ closingCommands).outcome (lateDefinition "other") =
        .error (.registryClosed "unit") ∧
      (afterAll ∅ closingCommands).program.call "unit" "greet" [] = .ok (.text "before") ∧
      ((afterAll ∅ closingCommands).after (lateDefinition "greet")).program.call "unit" "greet" [] =
        .ok (.text "after") := by
  have evaluated : (afterAll ∅ closingCommands).outcome (lateDefinition "greet") =
        .ok (.admitted [.isLocal]) ∧
      (afterAll ∅ closingCommands).outcome (lateDefinition "other") =
        .error (.registryClosed "unit") ∧
      (afterAll ∅ closingCommands).program.call "unit" "greet" [] = .ok (.text "before") ∧
      ((afterAll ∅ closingCommands).after (lateDefinition "greet")).program.call "unit" "greet" [] =
        .ok (.text "after") := by
    cbv
  exact ⟨⟨_, evaluated.1⟩, evaluated.2⟩

end Workspace

end Heredity
