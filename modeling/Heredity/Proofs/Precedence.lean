import Heredity.Evaluation
import Heredity.Proofs.Agreement
import Heredity.Proofs.Histories

/-!
# Which declaration a unit answers with

The image of a unit holds at each key the last declaration that took effect, and the inherited
routine where there was none.  That is so for all declarations of the unit itself.  What the hooks
of a base declare before the inherited routines are in place is the exception: an inherited routine
is put over it if the hook had withheld the key.

* `Opening` — what is executed when a unit is opened: the hooks before, the inherited routines, and
  the hooks after.
* `Opening.Overrules` — an inherited routine stands in the place of what the first hooks declared.
* `Opening.Governs` — the image holds what the opening and a history say, at every key.
* `Reachable.holds_latest` — every unit is governed by its opening and everything that it has
  declared since.

**What decides is the record.**  An inherited routine is left out only where a declaration is
recorded, and a declaration at a withheld key is not.  So the proof follows the record of an
inherited key through the first hooks (`Writing.Stands`).
-/

namespace Heredity

open Step (exec)
open Step (Logs)
open Treatment (latest)

/-! ## What own events leave in an image -/

namespace Writing

variable {w w' : Writing} {event : Event} {key : Key}

/-- The image holds a private routine at a private key. -/
def Guarded (key : Key) (w : Writing) : Prop :=
  w.draft.privateKeys.contains key = true →
    ∃ e, w.image.routines.get? key = some e ∧ e.isPrivate = true

/-- A key that was inherited is recorded unless it is withheld; the record is the inherited one
until a declaration takes effect, of which `last` is the last. -/
def Stands (key : Key) (last : Option Emission) (w : Writing) : Prop :=
  w.draft.withheld.contains key = false →
    ∃ r, w.draft.routines.get? key = some r ∧ r.inherited = last.isNone

end Writing

namespace Moves

variable {w w' : Writing} {event : Event} {key : Key}

/-- A public declaration that takes effect is not at a private key. -/
theorem guarded_hold {t : Treatment} (effective : t.admission ≠ .inert)
    (notPrivate : w.draft.privateKeys.contains t.emission.key = false) {d : Draft}
    (same : d.privateKeys = w.draft.privateKeys)
    (h : latest key [t] ≠ none ∨ w.Guarded key) :
    ((w.withDraft d).hold t.emission).Guarded key := by
  intro isPrivate
  rw [Writing.draft_hold, Writing.draft_withDraft, same] at isPrivate
  have other : ¬ (t.emission.key == key) = true := by
    intro agrees
    rw [Table.contains_congr _ agrees] at notPrivate
    exact Bool.false_ne_true (notPrivate.symm.trans isPrivate)
  have silent := Treatment.latest_singleton_of_none (Treatment.takesEffect_of_ne other)
  obtain ⟨e, held, hidden⟩ := h.resolve_left (absurd silent) isPrivate
  refine ⟨e, ?_, hidden⟩
  rw [Writing.get?_hold effective, silent]
  exact held

/-- **Private keys after one own event.**  They are guarded if they were so before, or if the event
is a declaration at the key that takes effect. -/
theorem guarded (move : Moves w event w') (own : event.isOwn = true)
    (h : latest key event.treatments ≠ none ∨ w.Guarded key) : w'.Guarded key := by
  cases move with
  | @declarePrivate e units made hidden writable unrecorded =>
    intro isPrivate
    have held := Writing.get?_hold (w := w) (t := ⟨e, units, .isLocal⟩) nofun key
    by_cases agrees : (e.key == key) = true
    · refine ⟨e, ?_, hidden⟩
      rw [Treatment.latest_singleton_of_effect (by simp [Treatment.takesEffect, *])] at held
      exact held
    · have silent := Treatment.latest_singleton_of_none (t := ⟨e, units, .isLocal⟩)
        (Treatment.takesEffect_of_ne agrees)
      rw [Writing.draft_hold, Writing.draft_withDraft, OrderedSet.contains_add,
        Bool.eq_false_iff.2 agrees, Bool.false_or] at isPrivate
      obtain ⟨e', held', hidden'⟩ := h.resolve_left (absurd silent) isPrivate
      rw [silent] at held
      exact ⟨e', held.trans held', hidden'⟩
  | @declareLocal e units made isPublic notPrivate withheld =>
    exact guarded_hold (t := ⟨e, units, .isLocal⟩) nofun notPrivate (d := w.draft) rfl h
  | @declareRecorded e units admission made isPublic writable notPrivate passedOn admitted =>
    refine guarded_hold (t := ⟨e, units, admission⟩) ?_ notPrivate rfl h
    rintro rfl
    exact Bool.false_ne_true admitted.isRecorded
  | declareInert => exact h.resolve_left (absurd (Event.latest_treatments_inert ..))
  | skip | inherit => cases own
  | grant | withhold | importKey | setHooks | require | close | complete =>
    exact h.resolve_left (absurd (Treatment.latest_nil key))

/-- **An inherited key after one own event.** -/
theorem stands {last : Option Emission} (move : Moves w event w') (own : event.isOwn = true)
    (h : w.Stands key last) : w'.Stands key ((latest key event.treatments).or last) := by
  -- What a declaration elsewhere leaves of the record at the key.
  have elsewhere : ∀ {t : Treatment}, ¬ (t.emission.key == key) = true → latest key [t] = none :=
    fun other => Treatment.latest_singleton_of_none (Treatment.takesEffect_of_ne other)
  intro passedOn
  cases move with
  | @declarePrivate e units _ _ _ unrecorded =>
    obtain ⟨r, recorded, standing⟩ := h passedOn
    have other : ¬ (e.key == key) = true := fun agrees =>
      Writing.Agrees.not_recorded agrees unrecorded recorded
    refine ⟨r, recorded, ?_⟩
    rw [Event.treatments, Event.treatment?, Option.toList, elsewhere other]
    exact standing
  | @declareLocal e units _ _ _ withheld =>
    have other : ¬ (e.key == key) = true := by
      intro agrees
      rw [Table.contains_congr _ agrees] at withheld
      exact Bool.false_ne_true (passedOn.symm.trans withheld)
    rw [Event.treatments, Event.treatment?, Option.toList, elsewhere other]
    exact h passedOn
  | @declareRecorded e units admission made _ _ _ _ admitted =>
    obtain ⟨r, recorded, standing⟩ := h passedOn
    rw [Writing.draft_hold, Writing.draft_withDraft, Draft.recorded, Table.get?_insert,
      Event.treatments, Event.treatment?, Option.toList]
    by_cases agrees : (e.key == key) = true
    · have effective : (⟨e, units, admission⟩ : Treatment).takesEffect key = true := by
        rcases admitted with ⟨rfl, -⟩ | ⟨rfl, -⟩ <;> simp [Treatment.takesEffect, agrees]
      rw [if_pos agrees, Treatment.latest_singleton_of_effect effective]
      exact ⟨_, rfl, rfl⟩
    · rw [if_neg agrees, elsewhere agrees]
      exact ⟨r, recorded, standing⟩
  | declareInert =>
    rw [Event.latest_treatments_inert]
    exact h passedOn
  | @grant key' r' _ recorded' =>
    obtain ⟨r, recorded, standing⟩ := h passedOn
    rw [Writing.draft_withDraft, Table.get?_insert]
    by_cases agrees : (key' == key) = true
    · rw [Table.get?_congr _ agrees, recorded] at recorded'
      cases recorded'
      rw [if_pos agrees]
      exact ⟨_, rfl, standing⟩
    · rw [if_neg agrees]
      exact ⟨r, recorded, standing⟩
  | @withhold key' =>
    rw [Writing.draft_withDraft, OrderedSet.contains_add, Bool.or_eq_false_iff] at passedOn
    obtain ⟨r, recorded, standing⟩ := h passedOn.2
    refine ⟨r, ?_, standing⟩
    rw [Writing.draft_withDraft, Table.get?_erase, if_neg (Bool.eq_false_iff.1 passedOn.1)]
    exact recorded
  | skip | inherit => cases own
  | importKey | setHooks | require | close | complete => exact h passedOn

end Moves

namespace Trace

variable {w w' : Writing} {events : List Event} {history : List Treatment} {key : Key}

/-- Private keys are guarded after own events if they were so before, or if there is a declaration
at the key among them that takes effect. -/
theorem guarded_of_accounts (trace : Trace w events w') (accounts : Accounts events history)
    (h : latest key history ≠ none ∨ w.Guarded key) : w'.Guarded key :=
  trace.recounted
    (I := fun past v => latest key past ≠ none ∨ w.Guarded key → v.Guarded key) accounts
    (fun {_ event _ past} own move guarded h => by
      refine move.guarded own ?_
      by_cases silent : latest key event.treatments = none
      · rw [Treatment.latest_append, silent] at h
        exact .inr (guarded h)
      · exact .inl silent)
    (fun h => h.resolve_left (absurd (Treatment.latest_nil key))) h

theorem stands_of_accounts (trace : Trace w events w') (accounts : Accounts events history)
    (h : w.Stands key none) : w'.Stands key (latest key history) :=
  trace.recounted (I := fun past v => v.Stands key (latest key past)) accounts
    (fun own move stands => by
      rw [Treatment.latest_append]
      exact move.stands own stands) h

/-! ## What is inherited -/

/-- Where a declaration is recorded, an inherited routine gives way to it. -/
theorem get?_of_native {es : List Emission} (trace : Trace w (es.map .inherit) w')
    {r : RoutineRecord} (recorded : w.draft.routines.get? key = some r)
    (native : r.inherited = false) :
    w'.image.routines.get? key = w.image.routines.get? key := by
  induction es generalizing w with
  | nil =>
    cases trace
    rfl
  | cons e es ih =>
    cases trace with
    | cons first rest =>
      cases first with
      | skip => exact ih rest recorded
      | inherit free =>
        have other : ¬ (e.key == key) = true := by
          intro agrees
          have inherited := free r (by rw [Table.get?_congr _ agrees, recorded])
          rw [RoutineRecord.inherited, bne_eq_false_iff_eq] at native
          exact inherited native
        rw [ih rest recorded, Writing.routines_hold, Table.get?_insert, if_neg other]

/-- Elsewhere, an inherited routine is put in place. -/
theorem get?_of_free {es : List Emission} (trace : Trace w (es.map .inherit) w')
    (distinct : es.Pairwise fun e e' => ¬ (e.key == e'.key) = true)
    (free : ∀ r, w.draft.routines.get? key = some r → r.inherited = true) :
    w'.image.routines.get? key =
      (es.find? fun e => e.key == key).or (w.image.routines.get? key) := by
  induction es generalizing w with
  | nil =>
    cases trace
    rfl
  | cons e es ih =>
    obtain ⟨apart, distinct⟩ := List.pairwise_cons.1 distinct
    cases trace with
    | cons first rest =>
      cases first with
      | @skip _ r recorded native =>
        have other : (e.key == key) = false := by
          rw [Bool.eq_false_iff]
          intro agrees
          have inherited := free r (by rw [← Table.get?_congr _ agrees, recorded])
          rw [RoutineRecord.inherited, native] at inherited
          cases inherited
        rw [ih rest distinct free, List.find?_cons, other]
      | inherit =>
        rw [ih rest distinct free, Writing.routines_hold, Table.get?_insert, List.find?_cons]
        cases agrees : e.key == key with
        | false => rfl
        | true =>
          -- No other routine is inherited at the key.
          have last : (es.find? fun e => e.key == key) = none := by
            rw [List.find?_eq_none]
            intro e' member agrees'
            exact apart e' member (BEq.trans agrees (BEq.symm agrees'))
          rw [last]
          rfl

/-- Putting in place what is inherited leaves the session alone. -/
theorem session_of_inherit {es : List Emission} (trace : Trace w (es.map .inherit) w') :
    w'.session = w.session :=
  trace.invariant (I := fun v => v.session = w.session) (fun _ _ _ member move same => by
    obtain ⟨e, -, rfl⟩ := List.mem_map.1 member
    cases move <;> exact same) rfl

end Trace

/-! ## From the first hooks to the last -/

/-- A unit whose first hooks have been executed, and which inherits emissions. -/
structure Writing.Hooked (first : List Treatment) (es : List Emission) (w : Writing) : Prop where
  /-- The image holds what the hooks have declared. -/
  holds : ∀ key, w.image.routines.get? key = latest key first
  /-- What is inherited is recorded, withheld, or replaced by a declaration. -/
  stands : ∀ {key e}, (es.find? fun e => e.key == key) = some e → w.Stands key (latest key first)
  /-- What is withheld is not recorded. -/
  apart : ∀ {key}, w.draft.withheld.contains key = true → w.draft.routines.contains key = false
  /-- What is private is guarded. -/
  guarded : ∀ key, w.Guarded key

namespace Writing.Hooked

variable {first : List Treatment} {es : List Emission} {w w' : Writing}

/-- **What is held when everything is in place.**  A declaration of the hooks comes before what is
inherited, unless its key is withheld. -/
theorem get?_of_inherit (h : w.Hooked first es) (trace : Trace w (es.map .inherit) w')
    (distinct : es.Pairwise fun e e' => ¬ (e.key == e'.key) = true) (key : Key) :
    w'.image.routines.get? key =
      if (w.draft.withheld.contains key && (es.find? fun e => e.key == key).isSome) = true then
        es.find? fun e => e.key == key
      else (latest key first).or (es.find? fun e => e.key == key) := by
  cases inherited : es.find? fun e => e.key == key with
  | none =>
    rw [Option.isSome_none, Bool.and_false, if_neg Bool.false_ne_true, Option.or_none, ← h.holds]
    by_cases native : ∃ r, w.draft.routines.get? key = some r ∧ r.inherited = false
    · obtain ⟨r, recorded, native⟩ := native
      exact trace.get?_of_native recorded native
    · rw [trace.get?_of_free distinct fun r recorded =>
        Bool.not_eq_false _ ▸ fun isNative => native ⟨r, recorded, isNative⟩, inherited]
      rfl
  | some e =>
    rw [Option.isSome_some, Bool.and_true]
    cases withheld : w.draft.withheld.contains key with
    | true =>
      have free := (Table.get?_eq_none_iff _ _).2 (h.apart withheld)
      have nowhere : ∀ r, w.draft.routines.get? key = some r → r.inherited = true :=
        fun r recorded => nomatch recorded.symm.trans free
      rw [if_pos rfl, trace.get?_of_free distinct nowhere, inherited]
      rfl
    | false =>
      -- The record says whether a hook has declared the key.
      obtain ⟨r, recorded, standing⟩ := h.stands inherited withheld
      rw [if_neg Bool.false_ne_true]
      cases declared : latest key first with
      | none =>
        rw [declared] at standing
        rw [trace.get?_of_free distinct fun r' recorded' => by
          cases recorded.symm.trans recorded'
          exact standing, inherited]
        rfl
      | some e' =>
        rw [declared] at standing
        rw [trace.get?_of_native recorded standing, h.holds, declared]
        rfl

/-- A private key stays guarded when everything is in place, unless an inherited routine is put over
the declaration. -/
theorem guarded_of_inherit (h : w.Hooked first es) (trace : Trace w (es.map .inherit) w')
    (distinct : es.Pairwise fun e e' => ¬ (e.key == e'.key) = true) {key : Key}
    (kept : (w.draft.withheld.contains key && (es.find? fun e => e.key == key).isSome) = true →
      latest key first = none) : w'.Guarded key := by
  intro isPrivate
  have draft : w'.draft = w.draft := congrArg Session.draft trace.session_of_inherit
  rw [draft] at isPrivate
  obtain ⟨e, held, hidden⟩ := h.guarded key isPrivate
  rw [h.holds] at held
  have intact :
      ¬ (w.draft.withheld.contains key && (es.find? fun e => e.key == key).isSome) = true :=
    fun restored => nomatch held.symm.trans (kept restored)
  refine ⟨e, ?_, hidden⟩
  rw [h.get?_of_inherit trace distinct, if_neg intact, held]
  rfl

end Writing.Hooked

/-! ## Opening a unit -/

/-- What is executed when a unit is opened. -/
structure Opening where
  /-- The store that the hooks read. -/
  store : Store
  /-- The bench on which the unit is opened. -/
  bench : Bench
  /-- What the unit inherits, with the hooks before and after. -/
  emissions : EmissionList

/-- Puts in place what is inherited, between the hooks. -/
def Session.putInPlace (emissions : EmissionList) : Step Bench Unit := do
  emissions.routines.forM emitInherited
  let b ← get
  Bench.updateProgram (·.require b.unit emissions.requires)

namespace Opening

variable (o : Opening)

/-- What the first hooks declare. -/
def first : List Treatment := Session.spliceHistory o.store o.emissions.preHooks o.bench

/-- The bench after the first hooks. -/
def hooked : Bench := (exec (Session.splice o.store o.emissions.preHooks) o.bench).2

/-- The bench on which everything is in place that is inherited. -/
def settled : Bench := (exec (Session.putInPlace o.emissions) o.hooked).2

/-- What the last hooks declare. -/
def last : List Treatment := Session.spliceHistory o.store o.emissions.postHooks o.settled

/-- The emission that is inherited at a key. -/
def inherited (key : Key) : Option Emission := o.emissions.routines.find? fun e => e.key == key

/-- An inherited routine stands in the place of what the first hooks declared. -/
structure Overrules (o : Opening) (history : List Treatment) (key : Key) : Prop where
  /-- The first hooks withhold the key. -/
  withheld : o.hooked.session.draft.withheld.contains key = true
  /-- There is a routine to inherit. -/
  inherited : (o.inherited key).isSome = true
  /-- The first hooks declare the key, too, and the declaration takes effect. -/
  declared : latest key o.first ≠ none
  /-- No declaration has taken effect since. -/
  last : latest key history = none

/-- The image of a unit holds the last declaration that took effect, or what is inherited, and it
guards the private keys; except where its opening overrules the first hooks. -/
structure Governs (o : Opening) (history : List Treatment) (w : Writing) : Prop where
  /-- What is inherited is public. -/
  isPublic : ∀ {key e}, o.inherited key = some e → e.isPrivate = false
  /-- The last declaration that took effect is held, or what is inherited. -/
  holds : ∀ key, ¬ o.Overrules history key →
    w.image.routines.get? key = (latest key (o.first ++ history)).or (o.inherited key)
  /-- Where the first hooks are overruled, it is what is inherited. -/
  overruled : ∀ key, o.Overrules history key → w.image.routines.get? key = o.inherited key
  /-- A private key is guarded. -/
  guards : ∀ key, ¬ o.Overrules history key → w.Guarded key

variable {o}

theorem overrules_append_iff {history later : List Treatment} {key : Key}
    (silent : latest key later = none) :
    o.Overrules (history ++ later) key ↔ o.Overrules history key := by
  have same : latest key (history ++ later) = latest key history := by
    rw [Treatment.latest_append, silent]
    rfl
  exact ⟨fun h => ⟨h.withheld, h.inherited, h.declared, same ▸ h.last⟩,
    fun h => ⟨h.withheld, h.inherited, h.declared, same ▸ h.last⟩⟩

/-- **A unit stays governed** by its opening and all that it declares. -/
theorem Governs.trace {history later : List Treatment} {w w' : Writing} {events : List Event}
    (h : o.Governs history w) (trace : Trace w events w') (accounts : Accounts events later) :
    o.Governs (history ++ later) w' where
  isPublic := h.isPublic
  holds key kept := by
    rw [trace.get?_of_accounts accounts, ← List.append_assoc, Treatment.latest_append]
    cases last : latest key later with
    | none =>
      rw [overrules_append_iff last] at kept
      exact h.holds key kept
    | some e => rfl
  overruled key overrules := by
    have silent : latest key later = none := by
      have last := overrules.last
      rw [Treatment.latest_append, Option.or_eq_none_iff] at last
      exact last.1
    rw [overrules_append_iff silent] at overrules
    rw [trace.get?_of_accounts accounts, silent]
    exact h.overruled key overrules
  guards key kept := by
    refine trace.guarded_of_accounts accounts ?_
    by_cases silent : latest key later = none
    · rw [overrules_append_iff silent] at kept
      exact .inr (h.guards key kept)
    · exact .inl silent

/-- Nothing is in place when a root has been opened. -/
theorem governs_root {store : Store} {bench : Bench} {requires : List String} {config : Config}
    {d : Draft} (fresh : d.privateKeys = ∅) :
    (Opening.mk store bench ⟨[], [], [], requires⟩).Governs [] (.opened config d) where
  isPublic none := nomatch none
  holds _ _ := rfl
  overruled _ _ := rfl
  guards key _ isPrivate := by
    rw [Writing.draft_opened, fresh] at isPrivate
    cases isPrivate

/-- **When everything is in place** after the first hooks, the unit is governed by its opening. -/
theorem Governs.of_hooked {w w' : Writing} (hooked : w.Hooked o.first o.emissions.routines)
    (shown : o.hooked.session = w.session)
    (distinct : o.emissions.routines.Pairwise fun e e' => ¬ (e.key == e'.key) = true)
    (isPublic : ∀ {key e}, o.inherited key = some e → e.isPrivate = false)
    (trace : Trace w (o.emissions.routines.map .inherit) w') : o.Governs [] w' := by
  have held := hooked.get?_of_inherit trace distinct
  -- Where an inherited routine is put over the hooks, they are overruled if they declared anything.
  have replaced : ∀ key, (w.draft.withheld.contains key && (o.inherited key).isSome) = true →
      ¬ o.Overrules [] key → latest key o.first = none := by
    intro key restored kept
    rw [Bool.and_eq_true] at restored
    by_contra declared
    refine kept ⟨?_, restored.2, declared, Treatment.latest_nil key⟩
    rw [shown]
    exact restored.1
  refine ⟨isPublic, fun key kept => ?_, fun key overrules => ?_,
    fun key kept => hooked.guarded_of_inherit trace distinct fun restored =>
      replaced key restored kept⟩
  · rw [held, List.append_nil]
    split
    · next restored =>
      rw [replaced key restored kept]
      rfl
    · rfl
  · have withheld := overrules.withheld
    rw [shown] at withheld
    rw [held, if_pos]
    · rfl
    · exact Bool.and_eq_true _ _ ▸ ⟨withheld, overrules.inherited⟩

section Extension

variable {config : Config} {base : Registry} {fields : Value} {unit : String}
  {resolution : Resolution}

/-- No two routines are inherited at one key. -/
theorem pairwise_emissions (resolved : resolve base fields unit config = .ok resolution) :
    resolution.emissions.routines.Pairwise fun e e' => ¬ (e.key == e'.key) = true := by
  rw [emissions_eq resolved, List.pairwise_map]
  exact List.pairwise_map.1 resolution.draft.routines.distinct

/-- What is inherited at a key is public, and recorded when the unit is opened. -/
theorem recorded_of_inherited (resolved : resolve base fields unit config = .ok resolution)
    {key : Key} {e : Emission}
    (found : (resolution.emissions.routines.find? fun e => e.key == key) = some e) :
    e.isPrivate = false ∧ (Writing.opened config resolution.draft).Stands key none := by
  have agrees := List.find?_some found
  have member := List.mem_of_find?_eq_some found
  rw [emissions_eq resolved] at member
  obtain ⟨⟨key', r⟩, stored, rfl⟩ := List.mem_map.1 member
  have recorded := Table.get?_eq_some_iff.2 ⟨key', stored, agrees⟩
  obtain ⟨_, _, -, -, becomes⟩ := (get?_inherited_iff resolved).1 recorded
  exact ⟨rfl, fun _ => ⟨r, recorded, inherited_of_inheritRoutine becomes⟩⟩

/-- **When the first hooks of the base have been executed,** what they declare has taken effect. -/
theorem hooked_of_trace (resolved : resolve base fields unit config = .ok resolution)
    {w : Writing} {events : List Event} {first : List Treatment} (accounts : Accounts events first)
    (trace : Trace (.opened config resolution.draft) events w) :
    w.Hooked first resolution.emissions.routines := by
  obtain ⟨-, -, noPrivate, -⟩ := draft_of_resolve resolved
  have opened : (Writing.opened config resolution.draft).Agrees resolution.emissions.routines :=
    .opened resolved
  have agrees := opened.trace_own accounts.own trace
  have fresh : ∀ key, ¬ resolution.draft.privateKeys.contains key = true := by
    intro key isPrivate
    rw [noPrivate] at isPrivate
    cases isPrivate
  exact {
    holds := fun key => (trace.get?_of_accounts accounts key).trans (Option.or_none ..)
    stands := fun found =>
      trace.stands_of_accounts accounts (recorded_of_inherited resolved found).2
    apart := agrees.apart
    guarded := fun key => trace.guarded_of_accounts accounts
      (.inr fun isPrivate => absurd isPrivate (fresh key)) }

end Extension

end Opening

/-! ## Opening by a command -/

namespace Session

/-- Everything is put in place between the hooks. -/
theorem exec_materialize (store : Store) (emissions : EmissionList) (b : Bench) :
    exec (materialize store emissions) b =
      exec (splice store emissions.preHooks >>= fun _ =>
        putInPlace emissions >>= fun _ => splice store emissions.postHooks) b := by
  simp only [materialize, putInPlace, bind_assoc]

/-- Putting in place what is inherited never fails. -/
theorem putInPlace_runs {b : Bench} (loaded : b.Loaded) (emissions : EmissionList) :
    ∃ b', exec (putInPlace emissions) b = (.ok ⟨⟩, b') ∧
      b.Runs (emissions.routines.map .inherit ++ [.require emissions.requires]) b' := by
  obtain ⟨b₁, done, runs⟩ := emitAll_runs loaded emissions.routines
  obtain ⟨b', done', runs'⟩ := exec_require runs.loaded emissions.requires
  refine ⟨b', ?_, runs.trans runs'⟩
  rw [putInPlace, Step.exec_bind_of_ok done, Step.exec_get_bind, done']

end Session

namespace Opening

/-- **What opening executes,** if no hook fails, are the hooks before, whose log comes first, what
is inherited, and the hooks after. -/
theorem runs_of_logs {γ : Type} {A : Reading γ} {log : List Hook → Bench → List γ} {o : Opening}
    (loaded : o.bench.Loaded) (logs : ∀ hooks, Logs A (Session.splice o.store hooks) (log hooks))
    {b : Bench} (done : exec (Session.materialize o.store o.emissions) o.bench = (.ok ⟨⟩, b)) :
    ∃ pre post, A.reads pre (log o.emissions.preHooks o.bench) ∧
      A.reads post (log o.emissions.postHooks o.settled) ∧ o.bench.Runs pre o.hooked ∧
      o.hooked.Runs (o.emissions.routines.map .inherit ++ [.require o.emissions.requires])
        o.settled ∧ o.settled.Runs post b := by
  rw [Session.exec_materialize] at done
  obtain ⟨_, b₁, first, done⟩ := Step.exists_of_exec_bind_eq_ok done
  obtain ⟨_, b₂, put, last⟩ := Step.exists_of_exec_bind_eq_ok done
  have hooked : o.hooked = b₁ := congrArg Prod.snd first
  have settled : o.settled = b₂ := by
    rw [Opening.settled, hooked, put]
  obtain ⟨pre, runs, ofPre⟩ := logs o.emissions.preHooks o.bench loaded
  rw [first] at runs
  obtain ⟨b', put', runs₂⟩ := Session.putInPlace_runs runs.loaded o.emissions
  cases put'.symm.trans put
  obtain ⟨post, runs₃, ofPost⟩ := logs o.emissions.postHooks b₂ runs₂.loaded
  rw [last] at runs₃
  rw [hooked, settled]
  exact ⟨pre, post, ofPre, ofPost, runs, runs₂, runs₃⟩

/-- **An extension is governed by its opening** when that has succeeded. -/
theorem governs_of_materialize {site : Site} {config : Config} {base : Registry} {fields : Value}
    {unit : String} {resolution : Resolution} {b : Bench}
    (resolved : resolve base fields unit config = .ok resolution) {o : Opening}
    (bench : o.bench = site.openingBench config resolution.draft)
    (emissions : o.emissions = resolution.emissions)
    (done : exec (Session.materialize o.store o.emissions) o.bench = (.ok ⟨⟩, b)) {image : Image}
    (held : b.program.units.get? b.unit = some image) : o.Governs o.last ⟨b.session, image⟩ := by
  have opened := site.openingBench_shows config resolution.draft
  rw [← bench] at opened
  obtain ⟨pre, post, ofPre, ofPost, runs₁, runs₂, runs₃⟩ :=
    runs_of_logs (A := Accounts.reading) opened.loaded (Session.splice_recounts o.store) done
  obtain ⟨w₀, w₁, shows₀, shows₁, before, -⟩ := runs₁
  obtain ⟨w₁', w₂, shows₁', shows₂, putting, -⟩ := runs₂
  obtain ⟨w₂', w₃, shows₂', shows₃, after, -⟩ := runs₃
  obtain rfl := opened.unique shows₀
  obtain rfl := shows₁.unique shows₁'
  obtain rfl := shows₂.unique shows₂'
  have written : b.Shows ⟨b.session, image⟩ := ⟨rfl, held⟩
  obtain rfl := shows₃.unique written
  obtain ⟨w₃, inheriting, requiring⟩ := putting.append_inv
  have hooked := hooked_of_trace resolved ofPre before
  rw [← emissions] at hooked
  have settled : o.Governs [] w₃ := by
    refine .of_hooked hooked shows₁.1 ?_ (fun inherited => ?_) inheriting
    · rw [emissions]
      exact pairwise_emissions resolved
    · rw [Opening.inherited, emissions] at inherited
      exact (recorded_of_inherited resolved inherited).1
  -- Requirements are no routines.
  have required : o.Governs [] w₂ := by
    cases requiring with
    | cons requires rest =>
      cases rest
      cases requires with
      | require => exact ⟨settled.isPublic, settled.holds, settled.overruled, settled.guards⟩
  exact required.trace after ofPost

end Opening

/-- Whether a command opens a unit. -/
def Command.isOpening : Command → Bool
  | .openRoot .. => true
  | .openExtension .. => true
  | _ => false

namespace Workspace

variable {w : Workspace}

/-- What a command executes when it opens a unit. -/
def opening? (w : Workspace) : Command → Option Opening
  | .openRoot config unit fields => do
    let fields ← (mergeFields ∅ fields).toOption
    return ⟨w.store, w.toSite.openingBench config { unit := unit, fields := fields },
      ⟨[], [], [], []⟩⟩
  | .openExtension config unit base fields => do
    let registry ← w.store.get? base
    let resolution ← (resolve registry fields unit config).toOption
    return ⟨w.store, w.toSite.openingBench config resolution.draft, resolution.emissions⟩
  | _ => none

/-- **How a unit is opened:** a root with its fields only, an extension with what it inherits in
place, and no hook of its base has failed. -/
inductive Opened (w : Workspace) : Command → Opening → Session → Image → Prop where
  /-- A root. -/
  | root {config : Config} {unit : String} {fields : Value} {merged : Table Value Value} :
      w.Opened (.openRoot config unit fields)
        ⟨w.store, w.toSite.openingBench config { unit := unit, fields := merged }, ⟨[], [], [], []⟩⟩
        (Site.newSession config { unit := unit, fields := merged })
        { base := none, fields := merged }
  /-- An extension. -/
  | extension {config : Config} {unit base : String} {fields : Value} {registry : Registry}
      {resolution : Resolution} {b : Bench} {image : Image}
      (published : w.store.get? base = some registry)
      (resolved : resolve registry fields unit config = .ok resolution)
      (done : exec (Session.materialize w.store resolution.emissions)
        (w.toSite.openingBench config resolution.draft) = (.ok ⟨⟩, b))
      (held : b.program.units.get? b.unit = some image) :
      w.Opened (.openExtension config unit base fields)
        ⟨w.store, w.toSite.openingBench config resolution.draft, resolution.emissions⟩ b.session
        image

/-- A command that opens a unit leaves behind its session and its image. -/
theorem opened_of_outcome {command : Command} {reply : Reply}
    (opens : command.isOpening = true) (ok : w.outcome command = .ok reply) :
    ∃ o s image, w.opening? command = some o ∧
      (w.after command).sessions.get? command.unit = some s ∧
      (w.after command).program.units.get? command.unit = some image ∧
      w.Opened command o s image := by
  have kept : ∀ (sessions : Table String Session) (unit : String) (s : Session),
      (sessions.insert unit s).get? unit = some s := fun sessions unit s => by
    rw [get?_sessions_insert, if_pos rfl]
  have done : (exec (perform command) w).1 = .ok reply := ok
  have after : w.after command = (exec (perform command) w).2 := rfl
  rw [after]
  cases command with
  | openRoot config unit fields =>
    unfold perform at done ⊢
    rw [exec_opening] at done ⊢
    rcases Site.exec_openRoot_cases w.toSite config unit fields with
      ⟨error, failed, -⟩ | ⟨merged, -, opened⟩
    · rw [failed] at done
      cases done
    · have merges := Site.mergeFields_of_openRoot (congrArg Prod.fst opened)
      rw [opened]
      refine ⟨⟨w.store, w.toSite.openingBench config { unit := unit, fields := merged },
        ⟨[], [], [], []⟩⟩, Site.newSession config { unit := unit, fields := merged },
        { base := none, fields := merged }, ?_, ?_, ?_, ?_⟩
      · rw [opening?, merges]
        rfl
      · exact kept _ _ _
      · exact (Program.get?_setImage _ _ _ _).trans (if_pos rfl)
      · exact .root
  | openExtension config unit base fields =>
    unfold perform at done ⊢
    rw [exec_opening] at done ⊢
    rcases Site.exec_openExtension_cases w.toSite config unit base fields with
      ⟨error, failed, -⟩ | ⟨registry, resolution, result, b, published, resolved, -, put, opened⟩
    · rw [failed] at done
      cases done
    · rw [opened] at done ⊢
      cases result with
      | error error => cases done
      | ok _ =>
        have alone := Site.alone_of_materialize put
        obtain ⟨image, held⟩ := alone.loaded
        have isUnit : b.unit = unit := alone.unit.trans (draft_of_resolve resolved).1
        refine ⟨_, b.session, image, ?_, kept _ _ _, isUnit ▸ held,
          .extension published resolved put held⟩
        rw [opening?, published, Option.bind_eq_bind, Option.bind_some, resolved]
        rfl
  | _ => cases opens

/-- **A unit that a command opens** is governed by its opening. -/
theorem governs_of_opening {command : Command} {reply : Reply}
    (opens : command.isOpening = true) (ok : w.outcome command = .ok reply) :
    ∃ o s image, w.opening? command = some o ∧
      (w.after command).sessions.get? command.unit = some s ∧
      (w.after command).program.units.get? command.unit = some image ∧
      o.Governs o.last ⟨s, image⟩ := by
  obtain ⟨o, s, image, isOpening, session, held, opened⟩ := opened_of_outcome opens ok
  refine ⟨o, s, image, isOpening, session, held, ?_⟩
  cases opened with
  | root => exact Opening.governs_root rfl
  | @extension config _ _ _ _ resolution _ _ published resolved done held =>
    exact Opening.governs_of_materialize resolved
      (o := ⟨w.store, w.toSite.openingBench config resolution.draft, resolution.emissions⟩)
      rfl rfl done held

end Workspace

/-- A unit answers calls of a key to itself only. -/
def Program.Hides (p : Program) (unit : String) (key : Key) : Prop :=
  ∀ evaluate name args caller, (Key.ofCount name args.length == key) = true → caller ≠ some unit →
    p.invokeWith evaluate unit name args caller =
      .error (.undefinedRoutine unit (Key.ofCount name args.length))

/-- Private routines are hidden. -/
theorem Program.hides_of_private {p : Program} {unit : String} {image : Image} {key : Key}
    {e : Emission} (held : p.units.get? unit = some image)
    (stored : image.routines.get? key = some e) (isPrivate : e.isPrivate = true) :
    p.Hides unit key := by
  intro evaluate name args caller isKey other
  have refused : callee image unit (Key.ofCount name args.length) caller =
      .error (.undefinedRoutine unit (Key.ofCount name args.length)) := by
    rw [callee, Table.get?_congr _ isKey, stored]
    exact if_pos (by simp [isPrivate, other])
  rw [invokeWith, image_eq_ok held]
  simp only [bind, Except.bind, refused]

namespace Workspace

/-- **The last declaration counts, and what is private stays private.**  In every workspace that
commands lead to, let a command open a unit, and let any commands follow, failing ones included.
Unless its opening overrules the first hooks of its base at a key, the image of the unit holds there
the last declaration that took effect, whether a hook or the unit made it, and what is inherited if
there was none.  A private key is held by a private routine, which no other unit can call, if and
only if the hooks are not overruled there. -/
theorem Reachable.holds_latest {w : Workspace} (h : w.Reachable) {command : Command}
    {reply : Reply} (opens : command.isOpening = true) (ok : w.outcome command = .ok reply)
    (commands : List Command) :
    ∃ o s image history, w.opening? command = some o ∧
      history = o.last ++ (w.after command).history command.unit commands ∧
      (w.afterAll (command :: commands)).sessions.get? command.unit = some s ∧
      (w.afterAll (command :: commands)).program.units.get? command.unit = some image ∧
      ∀ key,
        (¬ o.Overrules history key →
          image.routines.get? key = (latest key (o.first ++ history)).or (o.inherited key)) ∧
        (o.Overrules history key → image.routines.get? key = o.inherited key) ∧
        (s.draft.privateKeys.contains key = true →
          ((∃ e, image.routines.get? key = some e ∧ e.isPrivate = true ∧
              (w.afterAll (command :: commands)).program.Hides command.unit key) ↔
            ¬ o.Overrules history key)) := by
  obtain ⟨o, s₁, image₁, isOpening, session, held, governs⟩ := governs_of_opening opens ok
  obtain ⟨s, image, events, session', held', trace, accounts⟩ :=
    (h.coherent.after command).recounts_afterAll session held commands
  have governs := governs.trace trace accounts
  refine ⟨o, s, image, _, isOpening, rfl, session', held', fun key =>
    ⟨governs.holds key, governs.overruled key, fun isPrivate => ⟨?_, fun kept => ?_⟩⟩⟩
  · rintro ⟨e, stored, hidden, -⟩ overrules
    rw [governs.overruled key overrules] at stored
    exact Bool.false_ne_true ((governs.isPublic stored).symm.trans hidden)
  · obtain ⟨e, stored, hidden⟩ := governs.guards key kept isPrivate
    exact ⟨e, stored, hidden, Program.hides_of_private held' stored hidden⟩

/-- The key that the hook of `hookedCommands` withholds and declares again. -/
def hookedKey : Key := .ofCount "greet" 0

/-- The workspace in which the base of `hookedCommands` is published. -/
def hookedWorkspace : Workspace := afterAll ∅ (hookedCommands.dropLast)

/-- The command that opens the extension. -/
def hookedOpening : Command := .openExtension {} "child" "base" (.list [])

/-- A private routine that the extension declares when it has been opened. -/
def ownDeclaration : Declaration := ⟨"greet", [], .literal (.text "own"), [], true, false⟩

/-- What the extension declares itself is held and hidden, although the hook withheld the key. -/
theorem holds_latest_own :
    hookedWorkspace.outcome hookedOpening = .ok .done ∧
      ∃ s image e,
        (hookedWorkspace.afterAll [hookedOpening, .define "child" ownDeclaration]).sessions.get?
          "child" = some s ∧
        (hookedWorkspace.afterAll
          [hookedOpening, .define "child" ownDeclaration]).program.units.get? "child" =
            some image ∧
        s.draft.privateKeys.contains hookedKey = true ∧
        image.routines.get? hookedKey = some e ∧ e.body = .literal (.text "own") ∧
        (hookedWorkspace.afterAll [hookedOpening, .define "child" ownDeclaration]).program.Hides
          "child" hookedKey := by
  have reachable : hookedWorkspace.Reachable := Reachable.empty.afterAll (hookedCommands.dropLast)
  have evaluated : hookedWorkspace.outcome hookedOpening = .ok .done ∧
      (latest hookedKey ((hookedWorkspace.after hookedOpening).history "child"
        [.define "child" ownDeclaration])).map Emission.body = some (.literal (.text "own")) ∧
      ((hookedWorkspace.afterAll [hookedOpening, .define "child"
        ownDeclaration]).sessions.get? "child").map (fun s =>
          s.draft.privateKeys.contains hookedKey) = some true := by
    cbv
  obtain ⟨ok, declared, isPrivate⟩ := evaluated
  obtain ⟨o, s, image, history, -, isHistory, session, held, governed⟩ :=
    Reachable.holds_latest reachable (by decide) ok [.define "child" ownDeclaration]
  rw [show hookedOpening.unit = "child" from rfl] at isHistory session
  obtain ⟨e, isLatest, body⟩ := Option.map_eq_some_iff.1 declared
  have last : latest hookedKey history = some e := by
    rw [isHistory, Treatment.latest_append, isLatest]
    rfl
  have kept : ¬ o.Overrules history hookedKey := by
    intro overrules
    cases last.symm.trans overrules.last
  obtain ⟨holds, -, hides⟩ := governed hookedKey
  rw [Treatment.latest_append, last] at holds
  have isPrivate : s.draft.privateKeys.contains hookedKey = true := by
    rw [session] at isPrivate
    exact Option.some.inj isPrivate
  obtain ⟨-, -, -, hidden⟩ := (hides isPrivate).2 kept
  exact ⟨ok, s, image, e, session, held, isPrivate, holds kept, body, hidden⟩

/-- **Hooks are overruled.**  The hook withholds the routine that is inherited and then declares its
key privately, which takes effect and stays the last declaration; but calls from outside reach the
routine of the base. -/
theorem hook_overruled :
    hookedWorkspace.outcome hookedOpening = .ok .done ∧
      (hookedWorkspace.opening? hookedOpening).map (fun o =>
        (latest hookedKey (o.first ++ o.last)).map fun e => (e.body, e.isPrivate)) =
          some (some (.literal (.text "hook"), true)) ∧
      ((hookedWorkspace.after hookedOpening).sessions.get? "child").map (fun s =>
        s.draft.privateKeys.contains hookedKey) = some true ∧
      (hookedWorkspace.after hookedOpening).program.call "child" "greet" [] =
        .ok (.text "base") := by
  cbv

end Workspace

end Heredity
