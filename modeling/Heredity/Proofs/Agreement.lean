import Mathlib
import Heredity.Proofs.Inheritance
import Heredity.Proofs.Workspaces

/-!
# Registry and image agree

What descendants inherit is read from the registry of a unit, what runs is in its image.  The two
are written by different code on different paths; this file proves that they never come apart.

* `Emission.Matches` — an emission carries what a record says.
* `Writing.Agrees` — the invariant.  It names the inherited routines that are still *pending*, so
  that it also holds while an extension is being opened, before and between the hooks of its base.
* `Agrees.own`, `Agrees.inherit` — one event.
* `Reachable.image_agrees` — every session of every workspace that commands lead to.

**Pending routines are the reason for the invariant's form.**  A hook that runs before the inherited
routines are in place may replace, withhold or grant any of them, or declare a private routine at a
key that it has just withheld.  What it leaves of the record decides what the pending emission does
later, so the invariant says of each of them that it matches the record if that is still inherited.
-/

namespace Heredity

/-- An emission carries what a record says. -/
structure Emission.Matches (e : Emission) (r : RoutineRecord) : Prop where
  /-- It answers calls from everywhere. -/
  isPublic : e.isPrivate = false
  /-- It has the parameters. -/
  params : e.params = r.params
  /-- It has the guards. -/
  guards : e.guards = r.guards
  /-- It has the body. -/
  body : e.body = r.body
  /-- It has the origin. -/
  origin : e.origin = r.origin

theorem Emission.ofRecord_matches (key : Key) (r : RoutineRecord) : (ofRecord key r).Matches r :=
  ⟨rfl, rfl, rfl, rfl, rfl⟩

theorem Emission.Made.record_matches {e : Emission} (made : e.Made)
    (isPublic : e.isPrivate = false) : e.Matches e.record :=
  ⟨isPublic, rfl, rfl, rfl, made.native⟩

namespace Writing

/-- **The invariant.**  Draft and image agree, but for the inherited routines that are pending. -/
structure Agrees (pending : List Emission) (w : Writing) : Prop where
  /-- A recorded routine is in the image, or it is inherited and pending. -/
  recorded : ∀ {key r}, w.draft.routines.get? key = some r →
    (∃ e, w.image.routines.get? key = some e ∧ e.Matches r) ∨
      (r.inherited = true ∧ ∃ e ∈ pending, (e.key == key) = true ∧ e.Matches r)
  /-- A pending routine carries what the record says, unless a declaration has replaced that. -/
  awaited : ∀ {e r}, e ∈ pending → w.draft.routines.get? e.key = some r → r.inherited = true →
    e.Matches r
  /-- A pending routine is recorded or withheld. -/
  known : ∀ {e}, e ∈ pending →
    w.draft.routines.contains e.key = true ∨ w.draft.withheld.contains e.key = true
  /-- A private routine is in the image. -/
  hidden : ∀ {key}, w.draft.privateKeys.contains key = true →
    w.image.routines.contains key = true
  /-- What is in the image is recorded, private or withheld. -/
  accounted : ∀ {key}, w.image.routines.contains key = true →
    w.draft.routines.contains key = true ∨ w.draft.privateKeys.contains key = true ∨
      w.draft.withheld.contains key = true
  /-- What is withheld is not recorded. -/
  apart : ∀ {key}, w.draft.withheld.contains key = true → w.draft.routines.contains key = false

namespace Agrees

variable {pending : List Emission} {w w' : Writing} {event : Event} {e : Emission}

/-- A table that is recorded nowhere at a key reads nothing at a key that agrees. -/
theorem not_recorded {t : Table Key RoutineRecord} {key key' : Key} {r : RoutineRecord}
    (agrees : (key == key') = true) (unrecorded : t.contains key = false) :
    t.get? key' ≠ some r := by
  intro recorded
  rw [← Table.get?_congr t agrees, (Table.get?_eq_none_iff t key).2 unrecorded] at recorded
  cases recorded

/-- Holding a routine at a key that is not recorded, but private or withheld. -/
theorem hold_unrecorded (h : w.Agrees pending)
    (unrecorded : w.draft.routines.contains e.key = false)
    (kept : w.draft.privateKeys.contains e.key = true ∨
      w.draft.withheld.contains e.key = true) : (w.hold e).Agrees pending where
  recorded := by
    intro key r recorded
    have other : ¬ (e.key == key) = true := fun agrees =>
      not_recorded agrees unrecorded recorded
    rw [routines_hold, Table.get?_insert, if_neg other]
    exact h.recorded recorded
  awaited := h.awaited
  known := h.known
  hidden := by
    intro key isPrivate
    rw [routines_hold, Table.contains_insert, h.hidden isPrivate, Bool.or_true]
  accounted := by
    intro key held
    rw [routines_hold, Table.contains_insert, Bool.or_eq_true] at held
    rcases held with agrees | held
    · refine .inr ?_
      rw [draft_hold, ← Table.contains_congr _ agrees, ← Table.contains_congr _ agrees]
      exact kept
    · exact h.accounted held
  apart := h.apart

/-- A private declaration. -/
theorem declarePrivate (h : w.Agrees pending)
    (unrecorded : w.draft.routines.contains e.key = false) :
    ((w.withDraft { w.draft with
      privateKeys := w.draft.privateKeys.add e.key }).hold e).Agrees pending where
  recorded := by
    intro key r recorded
    have other : ¬ (e.key == key) = true := fun agrees =>
      not_recorded agrees unrecorded recorded
    rw [routines_hold, Table.get?_insert, if_neg other]
    exact h.recorded recorded
  awaited := h.awaited
  known := h.known
  hidden := by
    intro key isPrivate
    rw [routines_hold, Table.contains_insert, Bool.or_eq_true]
    rw [draft_hold, draft_withDraft, OrderedSet.contains_add, Bool.or_eq_true] at isPrivate
    exact isPrivate.imp_right h.hidden
  accounted := by
    intro key held
    rw [draft_hold, draft_withDraft, OrderedSet.contains_add, Bool.or_eq_true]
    rw [routines_hold, Table.contains_insert, Bool.or_eq_true] at held
    rcases held with agrees | held
    · exact .inr (.inl (.inl agrees))
    · rcases h.accounted held with recorded | isPrivate | withheld
      · exact .inl recorded
      · exact .inr (.inl (.inr isPrivate))
      · exact .inr (.inr withheld)
  apart := h.apart

/-- A declaration that is recorded. -/
theorem declareRecorded (h : w.Agrees pending) {units : NameSet} (carried : e.Matches e.record)
    (passedOn : w.draft.withheld.contains e.key = false) :
    ((w.withDraft (w.draft.recorded e units)).hold e).Agrees pending where
  recorded := by
    intro key r recorded
    rw [routines_hold, Table.get?_insert]
    rw [draft_hold, draft_withDraft, Draft.recorded, Table.get?_insert] at recorded
    by_cases agrees : (e.key == key) = true
    · rw [if_pos agrees] at recorded ⊢
      cases recorded
      exact .inl ⟨e, rfl, carried⟩
    · rw [if_neg agrees] at recorded ⊢
      exact h.recorded recorded
  awaited := by
    intro e' r awaits recorded inherited
    rw [draft_hold, draft_withDraft, Draft.recorded, Table.get?_insert] at recorded
    split at recorded
    · cases recorded
      cases inherited
    · exact h.awaited awaits recorded inherited
  known := by
    intro e' awaits
    rw [draft_hold, draft_withDraft, Draft.recorded, Table.contains_insert, Bool.or_eq_true]
    exact (h.known awaits).imp_left .inr
  hidden := by
    intro key isPrivate
    rw [routines_hold, Table.contains_insert, Bool.or_eq_true]
    exact .inr (h.hidden isPrivate)
  accounted := by
    intro key held
    rw [draft_hold, draft_withDraft, Draft.recorded, Table.contains_insert, Bool.or_eq_true]
    rw [routines_hold, Table.contains_insert, Bool.or_eq_true] at held
    rcases held with agrees | held
    · exact .inl (.inl agrees)
    · exact (h.accounted held).imp_left .inr
  apart := by
    intro key withheld
    have other : (e.key == key) = false := by
      rw [Bool.eq_false_iff]
      intro agrees
      rw [Table.contains_congr _ agrees] at passedOn
      exact Bool.false_ne_true (passedOn.symm.trans withheld)
    rw [draft_hold, draft_withDraft, Draft.recorded, Table.contains_insert, other, Bool.false_or]
    exact h.apart withheld

/-- A grant changes the permission only, which the image does not follow. -/
theorem grant (h : w.Agrees pending) {key : Key} {r : RoutineRecord}
    (recorded : w.draft.routines.get? key = some r) :
    (w.withDraft { w.draft with
      routines := w.draft.routines.insert key { r with permitted := true } }).Agrees pending := by
  have present : w.draft.routines.contains key = true :=
    Table.contains_iff_exists_get?.2 ⟨r, recorded⟩
  -- A record after the grant differs from the one before in the permission.
  have before : ∀ {key' r'},
      (w.draft.routines.insert key { r with permitted := true }).get? key' = some r' →
      ∃ r₀, w.draft.routines.get? key' = some r₀ ∧ r₀.inherited = r'.inherited ∧
        ∀ e : Emission, e.Matches r₀ → e.Matches r' := by
    intro key' r' recorded'
    rw [Table.get?_insert] at recorded'
    split at recorded'
    · next agrees =>
      cases recorded'
      refine ⟨r, ?_, rfl, fun e m => ⟨m.isPublic, m.params, m.guards, m.body, m.origin⟩⟩
      rw [← Table.get?_congr _ agrees, recorded]
    · exact ⟨r', recorded', rfl, fun _ m => m⟩
  have same : ∀ key', (w.draft.routines.insert key { r with permitted := true }).contains key' =
      w.draft.routines.contains key' := by
    intro key'
    rw [Table.contains_insert]
    cases agrees : key == key' with
    | false => rfl
    | true => rw [← Table.contains_congr _ agrees, present, Bool.true_or]
  refine ⟨?_, ?_, ?_, h.hidden, ?_, ?_⟩
  · intro key' r' recorded'
    obtain ⟨r₀, recorded₀, inherited, carries⟩ := before recorded'
    rcases h.recorded recorded₀ with ⟨e, held, m⟩ | ⟨isInherited, e, awaits, agrees, m⟩
    · exact .inl ⟨e, held, carries e m⟩
    · exact .inr ⟨inherited ▸ isInherited, e, awaits, agrees, carries e m⟩
  · intro e r' awaits recorded' isInherited
    obtain ⟨r₀, recorded₀, inherited, carries⟩ := before recorded'
    exact carries e (h.awaited awaits recorded₀ (inherited ▸ isInherited))
  · intro e awaits
    rw [draft_withDraft, same]
    exact h.known awaits
  · intro key' held
    rw [draft_withDraft, same]
    exact h.accounted held
  · intro key' withheld
    rw [draft_withDraft, same]
    exact h.apart withheld

/-- Withholding takes the record away and accounts for what stays in the image. -/
theorem withhold (h : w.Agrees pending) (key : Key) :
    (w.withDraft { w.draft with
      routines := w.draft.routines.erase key
      withheld := w.draft.withheld.add key }).Agrees pending where
  recorded := by
    intro key' r recorded
    rw [draft_withDraft, Table.get?_erase] at recorded
    split at recorded
    · cases recorded
    · exact h.recorded recorded
  awaited := by
    intro e r awaits recorded
    rw [draft_withDraft, Table.get?_erase] at recorded
    split at recorded
    · cases recorded
    · exact h.awaited awaits recorded
  known := by
    intro e awaits
    rw [draft_withDraft, Table.contains_erase, OrderedSet.contains_add]
    cases key == e.key with
    | true => exact .inr rfl
    | false => exact h.known awaits
  hidden := h.hidden
  accounted := by
    intro key' held
    rw [draft_withDraft, Table.contains_erase, OrderedSet.contains_add]
    cases key == key' with
    | true => exact .inr (.inr rfl)
    | false => exact h.accounted held
  apart := by
    intro key' withheld
    rw [draft_withDraft, OrderedSet.contains_add, Bool.or_eq_true] at withheld
    rw [draft_withDraft, Table.contains_erase]
    rcases withheld with agrees | withheld
    · rw [agrees]
      rfl
    · rw [h.apart withheld, Bool.and_false]

/-- **One own event.**  It keeps draft and image in agreement, whatever is pending. -/
theorem own (h : w.Agrees pending) (own : event.isOwn = true) (move : Moves w event w') :
    w'.Agrees pending := by
  cases move with
  | declarePrivate made isPrivate writable unrecorded => exact h.declarePrivate unrecorded
  | declareLocal made isPublic notPrivate withheld =>
    -- What is withheld is not recorded, so no record has to follow the image.
    exact h.hold_unrecorded (h.apart withheld) (.inr withheld)
  | declareRecorded made isPublic writable notPrivate passedOn admitted =>
    exact h.declareRecorded (made.record_matches isPublic) passedOn
  | grant writable recorded => exact h.grant recorded
  | withhold writable => exact h.withhold _
  | skip | inherit => cases own
  | declareInert | importKey | setHooks | require | close | complete =>
    exact ⟨h.recorded, h.awaited, h.known, h.hidden, h.accounted, h.apart⟩

/-- **One inherited routine.**  Being put in place or skipped, it is pending no longer. -/
theorem inherit (h : w.Agrees (e :: pending)) (move : Moves w (.inherit e) w') :
    w'.Agrees pending := by
  have awaited : ∀ {e' r}, e' ∈ pending → w.draft.routines.get? e'.key = some r →
      r.inherited = true → e'.Matches r :=
    fun awaits => h.awaited (List.mem_cons_of_mem e awaits)
  have known : ∀ {e'}, e' ∈ pending →
      w.draft.routines.contains e'.key = true ∨ w.draft.withheld.contains e'.key = true :=
    fun awaits => h.known (List.mem_cons_of_mem e awaits)
  cases move with
  | skip skipped native =>
    refine ⟨?_, awaited, known, h.hidden, h.accounted, h.apart⟩
    intro key r recorded
    rcases h.recorded recorded with held | ⟨inherited, e', awaits, agrees, carries⟩
    · exact .inl held
    · rcases List.mem_cons.1 awaits with rfl | awaits
      · -- The record is native, so it was never pending.
        rw [Table.get?_congr _ agrees, recorded] at skipped
        cases skipped
        rw [RoutineRecord.inherited, native] at inherited
        cases inherited
      · exact .inr ⟨inherited, e', awaits, agrees, carries⟩
  | inherit free =>
    refine ⟨?_, awaited, known, ?_, ?_, h.apart⟩
    · intro key r recorded
      rw [routines_hold, Table.get?_insert]
      split
      · next agrees =>
        have recorded' : w.draft.routines.get? e.key = some r := by
          rw [Table.get?_congr _ agrees]
          exact recorded
        have inherited : r.inherited = true := by
          rw [RoutineRecord.inherited, bne_iff_ne]
          exact free r recorded'
        exact .inl ⟨e, rfl, h.awaited List.mem_cons_self recorded' inherited⟩
      · next other =>
        rcases h.recorded recorded with held | ⟨inherited, e', awaits, agrees, carries⟩
        · exact .inl held
        · rcases List.mem_cons.1 awaits with rfl | awaits
          · exact absurd agrees other
          · exact .inr ⟨inherited, e', awaits, agrees, carries⟩
    · intro key isPrivate
      rw [routines_hold, Table.contains_insert, h.hidden isPrivate, Bool.or_true]
    · intro key held
      rw [routines_hold, Table.contains_insert, Bool.or_eq_true] at held
      rcases held with agrees | held
      · rw [draft_hold, ← Table.contains_congr _ agrees, ← Table.contains_congr _ agrees,
          ← Table.contains_congr _ agrees]
        exact (h.known List.mem_cons_self).imp_right .inr
      · exact h.accounted held

/-- A trace of own events keeps the agreement. -/
theorem trace_own (h : w.Agrees pending) {events : List Event}
    (own : ∀ event ∈ events, event.isOwn = true) (trace : Trace w events w') :
    w'.Agrees pending :=
  trace.invariant (fun _ _ _ member move agrees => agrees.own (own _ member) move) h

/-- When every inherited routine has been put in place, none is pending. -/
theorem trace_inherit (h : w.Agrees pending) (trace : Trace w (pending.map .inherit) w') :
    w'.Agrees [] := by
  induction pending generalizing w with
  | nil =>
    cases trace
    exact h
  | cons e pending ih =>
    cases trace with
    | cons first rest => exact ih (h.inherit first) rest

/-- **The start.**  When an extension is opened, all that it inherits is recorded and pending. -/
theorem opened {config : Config} {base : Registry} {fields : Value} {unit : String}
    {resolution : Resolution} (h : resolve base fields unit config = .ok resolution) :
    (Writing.opened config resolution.draft).Agrees resolution.emissions.routines := by
  obtain ⟨-, -, noPrivate, -, withheld, -⟩ := draft_of_resolve h
  have emissions := emissions_eq h
  have pending : ∀ {e}, e ∈ resolution.emissions.routines →
      ∃ r, resolution.draft.routines.get? e.key = some r ∧ e.Matches r := by
    intro e awaits
    rw [emissions] at awaits
    obtain ⟨⟨key, r⟩, stored, rfl⟩ := List.mem_map.1 awaits
    exact ⟨r, Table.get?_eq_some_iff.2 ⟨key, stored, BEq.rfl⟩, Emission.ofRecord_matches key r⟩
  refine ⟨?_, ?_, ?_, ?_, ?_, ?_⟩
  · intro key r recorded
    obtain ⟨r₀, needs, -, -, inherits⟩ := (get?_inherited_iff h).1 recorded
    obtain ⟨key', stored, agrees⟩ := Table.get?_eq_some_iff.1 recorded
    refine .inr ⟨inherited_of_inheritRoutine inherits, Emission.ofRecord key' r, ?_, agrees,
      Emission.ofRecord_matches key' r⟩
    rw [emissions]
    exact List.mem_map.2 ⟨(key', r), stored, rfl⟩
  · intro e r awaits recorded _
    obtain ⟨r', recorded', carries⟩ := pending awaits
    cases recorded'.symm.trans recorded
    exact carries
  · intro e awaits
    obtain ⟨r, recorded, -⟩ := pending awaits
    exact .inl (Table.contains_iff_exists_get?.2 ⟨r, recorded⟩)
  · intro key isPrivate
    rw [draft_opened, noPrivate] at isPrivate
    cases isPrivate
  · intro key held
    cases held
  · intro key isWithheld
    rw [draft_opened, withheld] at isWithheld
    rw [draft_opened, ← Table.get?_eq_none_iff, Option.eq_none_iff_forall_ne_some]
    intro r recorded
    obtain ⟨r₀, needs, -, passedOn, -⟩ := (get?_inherited_iff h).1 recorded
    exact Bool.false_ne_true (passedOn.symm.trans isWithheld)

end Agrees

/-- **Every unit in writing agrees with its image.** -/
theorem Attained.agrees {w : Writing} (h : w.Attained) : w.Agrees [] := by
  induction h with
  | root config unit fields =>
    exact ⟨fun h => (nomatch h), fun h => (nomatch h), fun h => (nomatch h), fun h => (nomatch h),
      fun h => (nomatch h), fun h => (nomatch h)⟩
  | extension attained closed resolved ownPre ownPost trace =>
    obtain ⟨w₁, before, trace⟩ := trace.append_inv
    obtain ⟨w₂, inheriting, after⟩ := trace.append_inv
    have agrees := ((Agrees.opened resolved).trace_own ownPre before).trace_inherit inheriting
    refine agrees.trace_own (fun event member => ?_) after
    rcases List.mem_cons.1 member with rfl | member
    · rfl
    · exact ownPost event member
  | move attained own move agrees => exact agrees.own own move

end Writing

/-- When nothing is pending, what is recorded is in the image. -/
theorem Writing.Agrees.stored {w : Writing} (h : w.Agrees []) {key : Key} {r : RoutineRecord}
    (recorded : w.draft.routines.get? key = some r) :
    ∃ e, w.image.routines.get? key = some e ∧ e.Matches r := by
  rcases h.recorded recorded with present | ⟨-, e, awaits, -⟩
  · exact present
  · cases awaits

/-- What a session records is in the image of its unit. -/
theorem Workspace.Coherent.stored_of_recorded {w : Workspace} (h : w.Coherent) {unit : String}
    {s : Session} {key : Key} {r : RoutineRecord} (session : w.sessions.get? unit = some s)
    (recorded : s.draft.routines.get? key = some r) :
    ∃ image e, w.program.units.get? unit = some image ∧ image.routines.get? key = some e ∧
      e.Matches r := by
  obtain ⟨-, image, held, attained⟩ := h.session session
  obtain ⟨e, stored, carries⟩ := attained.agrees.stored recorded
  exact ⟨image, e, held, stored, carries⟩

/-- The image of a published unit holds what its registry records, and nothing that the registry
does not account for. -/
theorem Workspace.Coherent.published_agrees {w : Workspace} (h : w.Coherent) {unit : String}
    {registry : Registry} {image : Image} (published : w.store.get? unit = some registry)
    (held : w.program.units.get? unit = some image) :
    registry.unit = unit ∧
      (∀ {key r}, registry.routines.get? key = some r →
        ∃ e, image.routines.get? key = some e ∧ e.Matches r) ∧
      (∀ {key}, image.routines.contains key = true →
        registry.routines.contains key = true ∨ registry.privateKeys.contains key = true ∨
          registry.withheld.contains key = true) ∧
      ∀ {key}, registry.withheld.contains key = true →
        registry.routines.contains key = false := by
  obtain ⟨s, session, -, rfl⟩ := h.published published
  obtain ⟨named, image', held', attained⟩ := h.session session
  cases held.symm.trans held'
  have agrees := attained.agrees
  exact ⟨named, agrees.stored, agrees.accounted, agrees.apart⟩

open Workspace in
/-- **Registry and image agree.**  In every workspace that commands lead to, whatever hooks were
executed and whichever commands failed, the image of a unit with a session holds every recorded
routine as it is recorded and open to every caller, it holds every private routine, and it holds
nothing that is not recorded, private or withheld. -/
theorem Workspace.Reachable.image_agrees {w : Workspace} (h : w.Reachable) {unit : String}
    {s : Session} (session : w.sessions.get? unit = some s) :
    ∃ image, w.program.units.get? unit = some image ∧
      (∀ key r, s.draft.routines.get? key = some r →
        ∃ e, image.routines.get? key = some e ∧ e.isPrivate = false ∧ e.params = r.params ∧
          e.guards = r.guards ∧ e.body = r.body ∧ e.origin = r.origin) ∧
      (∀ key, s.draft.privateKeys.contains key = true → image.routines.contains key = true) ∧
      ∀ key, image.routines.contains key = true →
        s.draft.routines.contains key = true ∨ s.draft.privateKeys.contains key = true ∨
          s.draft.withheld.contains key = true := by
  obtain ⟨-, image, held, attained⟩ := h.coherent.session session
  have agrees := attained.agrees
  refine ⟨image, held, fun key r recorded => ?_, fun key => agrees.hidden,
    fun key => agrees.accounted⟩
  rcases agrees.recorded recorded with ⟨e, stored, carries⟩ | ⟨-, e, awaits, -⟩
  · exact ⟨e, stored, carries.isPublic, carries.params, carries.guards, carries.body,
      carries.origin⟩
  · cases awaits

/-- The commands by which a base is written and extended that passes on two routines, and whose hook
withholds one of them and declares it again. -/
def Workspace.hookedCommands : List Command :=
  [.openRoot {} "base" (.list []),
    .define "base" ⟨"greet", [], .literal (.text "base"), [], false, true⟩,
    .define "base" ⟨"part", [.binding "x"], .var "x", [.literal (.bool true)], false, false⟩,
    .setHooks "base" (some [.withhold (.ofCount "greet" 0),
      .define ⟨"greet", [], .literal (.text "hook"), [], true, false⟩]) none,
    .finish "base",
    .openExtension {} "child" "base" (.list [])]

/-- The agreement survives a hook that withholds an inherited routine and declares it again before
the inherited one is put in place.  The other routine is recorded, and the image holds it as it is
recorded. -/
theorem Workspace.image_agrees_of_hook :
    ∃ s r image, (afterAll ∅ hookedCommands).sessions.get? "child" = some s ∧
      (afterAll ∅ hookedCommands).program.units.get? "child" = some image ∧
      s.draft.routines.get? (.ofCount "part" 1) = some r ∧ r.body = .var "x" ∧
      (∃ e, image.routines.get? (.ofCount "part" 1) = some e ∧ e.isPrivate = false ∧
        e.params = r.params ∧ e.guards = r.guards ∧ e.body = r.body ∧ e.origin = r.origin) ∧
      s.draft.privateKeys.contains (.ofCount "greet" 0) = true ∧
      image.routines.contains (.ofCount "greet" 0) = true ∧
      ∀ key, image.routines.contains key = true →
        s.draft.routines.contains key = true ∨ s.draft.privateKeys.contains key = true ∨
          s.draft.withheld.contains key = true := by
  obtain ⟨opened, hidden⟩ :
      ((afterAll ∅ hookedCommands).sessions.get? "child").bind (fun s =>
          (s.draft.routines.get? (.ofCount "part" 1)).map RoutineRecord.body) = some (.var "x") ∧
        ((afterAll ∅ hookedCommands).sessions.get? "child").map (fun s =>
          s.draft.privateKeys.contains (.ofCount "greet" 0)) = some true := by
    cbv
  obtain ⟨s, session, recorded⟩ := Option.bind_eq_some_iff.1 opened
  obtain ⟨r, recorded, body⟩ := Option.map_eq_some_iff.1 recorded
  rw [session, Option.map_some, Option.some_inj] at hidden
  obtain ⟨image, held, stored, kept, accounted⟩ :=
    Reachable.image_agrees (Reachable.empty.afterAll hookedCommands) session
  exact ⟨s, r, image, session, held, recorded, body, stored _ r recorded, hidden, kept _ hidden,
    accounted⟩

end Heredity
