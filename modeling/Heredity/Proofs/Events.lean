import Heredity.Proofs.Steps

/-!
# What a session can do

The operations of a session are programs with checks and failures; what they leave behind is always
the work of a few atomic *events*.  This file says once what an event can do, guards included, and
the invariants of sessions are derived from that.

* `Writing` — a unit that is being written: its session and the image that the program holds of it.
* `Event` — an atomic change, labelled with everything that it writes.
* `Moves` — which events are possible, and what they lead to.
* `Trace` — events one after the other.

**The draft and the image in one state.**  Registry and program are written by different code, but
never apart: a declaration writes both in one event, so nothing has to be said about the moment
between the two writes.

**A label does not decide the event.**  Whether a declaration counts for the unit alone because it
is private or because its key is withheld can be read off the emission, not off the admission; the
two are different constructors with one label.
-/

namespace Heredity

/-- A unit that is being written. -/
structure Writing where
  /-- The session. -/
  session : Session
  /-- What the program holds of the unit. -/
  image : Image

namespace Writing

/-- The draft of the unit. -/
def draft (w : Writing) : Draft := w.session.draft

/-- The ledger of the unit. -/
def ledger (w : Writing) : Ledger := w.session.ledger

/-- The same with another draft. -/
def withDraft (w : Writing) (d : Draft) : Writing :=
  { w with session := { w.session with draft := d } }

/-- The same after the program has received a routine. -/
def hold (w : Writing) (e : Emission) : Writing :=
  { w with image := { w.image with routines := w.image.routines.insert e.key e } }

/-- The image is complete: it was closed after the draft, and has taken over what that withholds. -/
structure Complete (w : Writing) : Prop where
  /-- The draft is closed. -/
  draft : w.draft.closed = true
  /-- The image is closed. -/
  image : w.image.closed = true
  /-- Both withhold the same. -/
  withheld : w.image.withheld = w.draft.withheld

/-- A unit whose draft has just been made and whose image has just been opened. -/
def opened (config : Config) (d : Draft) : Writing :=
  ⟨Site.newSession config d, { base := d.base, fields := d.fields }⟩

@[simp] theorem draft_mk (s : Session) (image : Image) : draft ⟨s, image⟩ = s.draft := rfl

@[simp] theorem draft_withDraft (w : Writing) (d : Draft) : (w.withDraft d).draft = d := rfl

@[simp] theorem draft_hold (w : Writing) (e : Emission) : (w.hold e).draft = w.draft := rfl

@[simp] theorem ledger_withDraft (w : Writing) (d : Draft) :
    (w.withDraft d).ledger = w.ledger := rfl

@[simp] theorem ledger_hold (w : Writing) (e : Emission) : (w.hold e).ledger = w.ledger := rfl

@[simp] theorem image_withDraft (w : Writing) (d : Draft) : (w.withDraft d).image = w.image := rfl

@[simp] theorem routines_hold (w : Writing) (e : Emission) :
    (w.hold e).image.routines = w.image.routines.insert e.key e := rfl

@[simp] theorem draft_opened (config : Config) (d : Draft) : (opened config d).draft = d := rfl

@[simp] theorem routines_opened (config : Config) (d : Draft) :
    (opened config d).image.routines = ∅ := rfl

end Writing

/-- An atomic change of a unit that is being written. -/
inductive Event where
  /-- A variant of a declaration is treated; `units` are the units that the declaration calls. -/
  | declare (e : Emission) (units : NameSet) (admission : Admission)
  /-- Descendants are permitted to replace a routine. -/
  | grant (key : Key)
  /-- A key is kept from descendants. -/
  | withhold (key : Key)
  /-- A key is imported. -/
  | importKey (key : Key) (source : String)
  /-- The hooks are set. -/
  | setHooks (pre post : Option Hook)
  /-- The image requires units. -/
  | require (units : List String)
  /-- An inherited routine is put into the program, unless a declaration has replaced it. -/
  | inherit (e : Emission)
  /-- The draft is closed. -/
  | close
  /-- The image is completed. -/
  | complete

/-- Whether an event belongs to the unit itself; the others put in place what it inherits. -/
def Event.isOwn : Event → Bool
  | .inherit _ => false
  | _ => true

/-- Whether an event declares something. -/
def Event.isDeclaration : Event → Bool
  | .declare .. => true
  | _ => false

/-- What every emission of a declared variant has: the origin, a key with the number of its
parameters, and expressions for body and guards. -/
structure Emission.Made (e : Emission) : Prop where
  /-- It is declared by the unit itself. -/
  native : e.origin = .native
  /-- Its arity is the number of its parameters. -/
  arity : e.key.arity = .count e.params.length
  /-- Its body is an expression. -/
  body : e.body.isExpression = true
  /-- Its guards are expressions. -/
  guards : ∀ guard ∈ e.guards, guard.isExpression = true

/-- The record of an emission that is recorded. -/
def Emission.record (e : Emission) : RoutineRecord := Ledger.nativeRecord e.params e.guards e.body

/-- The draft in which an emission is recorded, with the units that its declaration calls. -/
def Draft.recorded (d : Draft) (e : Emission) (units : NameSet) : Draft :=
  { d with
    routines := d.routines.insert e.key e.record
    dependencies := d.dependencies.addAll (units.toList.filter (· != d.unit)) }

/-- How the ledger admits a declaration that is to be recorded. -/
def Ledger.Admits (l : Ledger) (d : Draft) (key : Key) (admission : Admission) : Prop :=
  (admission = .record ∧ d.routines.get? key = none) ∨
    (admission = .replace ∧ ∃ r, d.routines.get? key = some r ∧
      (r.inherited = false ∨ l.mayReplace key r = true))

/-- **One event.**  The hypotheses of a constructor are all that the operations check before they
write, and its last argument is all that they write. -/
inductive Moves : Writing → Event → Writing → Prop where
  /-- A private declaration enters the keys of private routines and the image. -/
  | declarePrivate {w : Writing} {e : Emission} {units : NameSet} (made : e.Made)
      (isPrivate : e.isPrivate = true) (writable : w.draft.closed = false)
      (unrecorded : w.draft.routines.contains e.key = false) :
      Moves w (.declare e units .isLocal)
        ((w.withDraft { w.draft with privateKeys := w.draft.privateKeys.add e.key }).hold e)
  /-- A declaration at a withheld key enters the image only; the draft may be closed already. -/
  | declareLocal {w : Writing} {e : Emission} {units : NameSet} (made : e.Made)
      (isPublic : e.isPrivate = false)
      (notPrivate : w.draft.privateKeys.contains e.key = false)
      (withheld : w.draft.withheld.contains e.key = true) :
      Moves w (.declare e units .isLocal) (w.hold e)
  /-- An admitted declaration enters the records and the image. -/
  | declareRecorded {w : Writing} {e : Emission} {units : NameSet} {admission : Admission}
      (made : e.Made) (isPublic : e.isPrivate = false) (writable : w.draft.closed = false)
      (notPrivate : w.draft.privateKeys.contains e.key = false)
      (passedOn : w.draft.withheld.contains e.key = false)
      (admitted : w.ledger.Admits w.draft e.key admission) :
      Moves w (.declare e units admission)
        ((w.withDraft (w.draft.recorded e units)).hold e)
  /-- A declaration at a locked key enters neither. -/
  | declareInert {w : Writing} {e : Emission} {units : NameSet} {r : RoutineRecord} (made : e.Made)
      (isPublic : e.isPrivate = false)
      (notPrivate : w.draft.privateKeys.contains e.key = false)
      (passedOn : w.draft.withheld.contains e.key = false)
      (recorded : w.draft.routines.get? e.key = some r) (inherited : r.inherited = true)
      (locked : w.ledger.mayReplace e.key r = false) :
      Moves w (.declare e units .inert)
        { w with session := { w.session with inert := w.session.inert ++ [e] } }
  /-- A grant marks the record. -/
  | grant {w : Writing} {key : Key} {r : RoutineRecord} (writable : w.draft.closed = false)
      (recorded : w.draft.routines.get? key = some r) :
      Moves w (.grant key)
        (w.withDraft
          { w.draft with routines := w.draft.routines.insert key { r with permitted := true } })
  /-- Withholding removes the record; the image keeps the routine. -/
  | withhold {w : Writing} {key : Key} (writable : w.draft.closed = false) :
      Moves w (.withhold key)
        (w.withDraft
          { w.draft with
            routines := w.draft.routines.erase key
            withheld := w.draft.withheld.add key })
  /-- An import is noted in the draft. -/
  | importKey {w : Writing} {key : Key} {source : String} (writable : w.draft.closed = false) :
      Moves w (.importKey key source)
        (w.withDraft { w.draft with imports := w.draft.imports.insert key source })
  /-- The hooks are noted in the draft. -/
  | setHooks {w : Writing} {pre post : Option Hook} (writable : w.draft.closed = false) :
      Moves w (.setHooks pre post) (w.withDraft { w.draft with preHook := pre, postHook := post })
  /-- Requirements are noted in the image. -/
  | require {w : Writing} {units : List String} :
      Moves w (.require units)
        { w with
          image := { w.image with
            requires := w.image.requires.addAll (units.filter (· != w.draft.unit)) } }
  /-- An inherited routine gives way to a declaration of the unit. -/
  | skip {w : Writing} {e : Emission} {r : RoutineRecord}
      (recorded : w.draft.routines.get? e.key = some r) (native : r.origin = .native) :
      Moves w (.inherit e) w
  /-- An inherited routine enters the image otherwise. -/
  | inherit {w : Writing} {e : Emission}
      (free : ∀ r, w.draft.routines.get? e.key = some r → r.origin ≠ .native) :
      Moves w (.inherit e) (w.hold e)
  /-- A draft in which no record is withheld is closed. -/
  | close {w : Writing} (writable : w.draft.closed = false)
      (apart : w.draft.recordsWithheld = false) :
      Moves w .close (w.withDraft { w.draft with closed := true })
  /-- The image takes over what is withheld. -/
  | complete {w : Writing} (closed : w.draft.closed = true) :
      Moves w .complete
        { w with image := { w.image with withheld := w.draft.withheld, closed := true } }

/-- Events one after the other. -/
inductive Trace : Writing → List Event → Writing → Prop where
  /-- No event changes nothing. -/
  | nil (w : Writing) : Trace w [] w
  /-- An event, and then the rest. -/
  | cons {w w' w'' : Writing} {event : Event} {events : List Event} (first : Moves w event w')
      (rest : Trace w' events w'') : Trace w (event :: events) w''

namespace Moves

variable {w w' : Writing} {event : Event}

/-- The unit keeps its name. -/
theorem unit_eq (h : Moves w event w') : w'.draft.unit = w.draft.unit := by
  cases h <;> rfl

/-- The snapshot of the permissions is never written. -/
theorem ledger_eq (h : Moves w event w') : w'.ledger = w.ledger := by
  cases h <;> rfl

/-- A closed draft stays as it is. -/
theorem draft_eq_of_closed (h : Moves w event w') (closed : w.draft.closed = true) :
    w'.draft = w.draft := by
  cases h with
  | declareLocal | declareInert | require | skip | inherit | complete => rfl
  | declarePrivate _ _ writable | declareRecorded _ _ writable | grant writable
  | withhold writable | importKey writable | setHooks writable | close writable =>
    simp [closed] at writable

/-- A complete image stays complete. -/
theorem stays_complete (h : Moves w event w') (complete : w.Complete) : w'.Complete := by
  have same := h.draft_eq_of_closed complete.draft
  have image : w'.image.closed = true ∧ w'.image.withheld = w'.draft.withheld := by
    rw [same]
    cases h with
    | complete => exact ⟨rfl, rfl⟩
    | _ => exact ⟨complete.image, complete.withheld⟩
  exact ⟨same ▸ complete.draft, image.1, image.2⟩

/-- **Records.**  What holds of every record that a unit can make, and of every record with the
permission that a grant gives, holds of all records after an event if it did so before. -/
theorem records {Q : Key → RoutineRecord → Prop} (move : Moves w event w')
    (own : ∀ e : Emission, e.Made → Q e.key e.record)
    (permit : ∀ {key r}, Q key r → Q key { r with permitted := true })
    (agree : ∀ {key key' r}, (key == key') = true → Q key r → Q key' r)
    (h : ∀ key r, w.draft.routines.get? key = some r → Q key r) :
    ∀ key r, w'.draft.routines.get? key = some r → Q key r := by
  have insert : ∀ {key : Key} {r : RoutineRecord}, Q key r → ∀ key' r',
      (w.draft.routines.insert key r).get? key' = some r' → Q key' r' :=
    fun holds => Table.forall_insert_of_agree h fun _ agrees => agree agrees holds
  cases move with
  | declareRecorded made => exact insert (own _ made)
  | grant writable recorded => exact insert (permit (h _ _ recorded))
  | withhold writable =>
    intro key' r' recorded
    rw [Writing.draft_withDraft, Table.get?_erase] at recorded
    split at recorded
    · cases recorded
    · exact h key' r' recorded
  | _ => exact h

/-- Only declarations of the unit, and what it inherits, change the routines in the image. -/
theorem routines_eq (h : Moves w event w') (own : event.isOwn = true)
    (silent : event.isDeclaration = false) : w'.image.routines = w.image.routines := by
  cases h with
  | declarePrivate | declareLocal | declareRecorded | declareInert => cases silent
  | skip | inherit => cases own
  | _ => rfl

/-- The unit keeps its base. -/
theorem base_eq (h : Moves w event w') : w'.draft.base = w.draft.base := by
  cases h <;> rfl

/-- What a unit withholds, it withholds for good. -/
theorem withheld_mono (h : Moves w event w') {key : Key}
    (withheld : w.draft.withheld.contains key = true) : w'.draft.withheld.contains key = true := by
  cases h with
  | withhold => simp [OrderedSet.contains_add, withheld]
  | _ => exact withheld

end Moves

namespace Trace

variable {w w' w'' : Writing} {event : Event} {events events' : List Event}

theorem single (h : Moves w event w') : Trace w [event] w' := .cons h (.nil w')

theorem append (h : Trace w events w') (h' : Trace w' events' w'') :
    Trace w (events ++ events') w'' := by
  induction h with
  | nil => exact h'
  | cons first _ ih => exact .cons first (ih h')

theorem append_inv (h : Trace w (events ++ events') w'') :
    ∃ w', Trace w events w' ∧ Trace w' events' w'' := by
  induction events generalizing w with
  | nil => exact ⟨w, .nil w, h⟩
  | cons event events ih =>
    cases h with
    | cons first rest =>
      obtain ⟨w', front, back⟩ := ih rest
      exact ⟨w', .cons first front, back⟩

/-- **From one event to a trace.**  What every event of a trace preserves, the trace preserves. -/
theorem invariant {I : Writing → Prop} (h : Trace w events w')
    (step : ∀ w event w', event ∈ events → Moves w event w' → I w → I w') (start : I w) : I w' := by
  induction h with
  | nil => exact start
  | cons first _ ih =>
    exact ih (fun w event w' member => step w event w' (List.mem_cons_of_mem _ member))
      (step _ _ _ List.mem_cons_self first start)

theorem unit_eq (h : Trace w events w') : w'.draft.unit = w.draft.unit :=
  h.invariant (I := fun v => v.draft.unit = w.draft.unit)
    (fun _ _ _ _ move start => move.unit_eq.trans start) rfl

theorem base_eq (h : Trace w events w') : w'.draft.base = w.draft.base :=
  h.invariant (I := fun v => v.draft.base = w.draft.base)
    (fun _ _ _ _ move start => move.base_eq.trans start) rfl

theorem withheld_mono (h : Trace w events w') {key : Key}
    (withheld : w.draft.withheld.contains key = true) : w'.draft.withheld.contains key = true :=
  h.invariant (I := fun v => v.draft.withheld.contains key = true)
    (fun _ _ _ _ move start => move.withheld_mono start) withheld

theorem ledger_eq (h : Trace w events w') : w'.ledger = w.ledger :=
  h.invariant (I := fun v => v.ledger = w.ledger)
    (fun _ _ _ _ move start => move.ledger_eq.trans start) rfl

theorem draft_eq_of_closed (h : Trace w events w') (closed : w.draft.closed = true) :
    w'.draft = w.draft :=
  h.invariant (I := fun v => v.draft = w.draft)
    (fun _ _ _ _ move start => (move.draft_eq_of_closed (start ▸ closed)).trans start) rfl

theorem stays_complete (h : Trace w events w') (start : w.Complete) : w'.Complete :=
  h.invariant (I := Writing.Complete)
    (fun _ _ _ _ move complete => move.stays_complete complete) start

/-- Closing the draft and completing the image make the image complete. -/
theorem complete_of_closing (h : Trace w [.close, .complete] w') : w'.Complete := by
  cases h with
  | cons first rest =>
    cases rest with
    | cons second rest =>
      cases rest
      cases first
      cases second
      exact ⟨rfl, rfl, rfl⟩

theorem routines_eq (h : Trace w events w')
    (silent : ∀ event ∈ events, event.isOwn = true ∧ event.isDeclaration = false) :
    w'.image.routines = w.image.routines :=
  h.invariant (I := fun v => v.image.routines = w.image.routines)
    (fun _ event _ member move start =>
      (move.routines_eq (silent event member).1 (silent event member).2).trans start) rfl

end Trace

end Heredity
