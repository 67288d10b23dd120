import Heredity.Proofs.Histories
import Heredity.Proofs.Interruption
import Heredity.Proofs.Locking
import Heredity.Proofs.Precedence

/-!
# Grants are for descendants

A unit that grants permission passes it on and does not use it itself.  This file compares two runs
of one session that differ in the grants only: nothing differs but the flags of the records.

* `Bench.Twin` — two benches differ in the flags of the records at most, and the first of them is
  covered.
* `Session.Covered` — every inherited record is in the snapshot of the permissions.
* `run_twins`, `close_twins`, … — the operations on such benches.
* `Command.Thins` — commands without some of the grants and some of the marks of declarations as
  overridable.
* `Workspace.Twin`, `Workspace.Alike` — workspaces that differ in the flags of one unit, and runs
  that lead to such ones.
* `Reachable.thinned` — commands without some of the grants have runs that are alike.

**The flag is read in one place only,** when a declaration of an inherited key is assessed, and only
if the snapshot does not know the key.  So the proof has two parts: every operation that writes the
draft is blind to the flags, and a covered session never asks for the flag of a record.
-/

namespace Heredity

open Step (exec historyEach)

/-! ## Histories from related benches -/

namespace Step

variable {α β : Type}

/-- Histories are the same from related benches, if those of the members are. -/
theorem historyEach_eq_of_matches {R : Bench → Bench → Prop} {f f' : α → Step Bench β}
    {history history' : α → Bench → List Treatment} {xs : List α}
    (each : ∀ x ∈ xs, Matches R (f x) (f' x))
    (same : ∀ x ∈ xs, ∀ b b', R b b' → history' x b' = history x b) {b b' : Bench}
    (related : R b b') : historyEach f' history' xs b' = historyEach f history xs b := by
  induction xs generalizing b b' with
  | nil => rfl
  | cons x xs ih =>
    obtain ⟨outcome, related₁⟩ := each x List.mem_cons_self related
    unfold historyEach
    rw [same x List.mem_cons_self b b' related]
    cases first : exec (f x) b with
    | mk result b₁ =>
      cases first' : exec (f' x) b' with
      | mk result' b₁' =>
        rw [first, first'] at outcome related₁
        cases outcome
        cases result with
        | error e => rfl
        | ok a =>
          refine congrArg _ (ih (fun y hy => each y (List.mem_cons_of_mem x hy))
            (fun y hy => same y (List.mem_cons_of_mem x hy)) related₁)

end Step

open Step (Matches)

/-! ## Without the flags -/

namespace Table

variable {κ α β : Type} [BEq κ]

theorem find?_mapValues (f : α → β) (t : Table κ α) (k : κ) :
    (t.mapValues f).find? k = (t.find? k).map fun e => (e.1, f e.2) := List.find?_map ..

theorem get?_mapValues (f : α → β) (t : Table κ α) (k : κ) :
    (t.mapValues f).get? k = (t.get? k).map f := by
  rw [get?, find?_mapValues, get?, Option.map_map, Option.map_map]
  rfl

theorem contains_mapValues (f : α → β) (t : Table κ α) (k : κ) :
    (t.mapValues f).contains k = t.contains k := by
  rw [contains, mapValues, List.any_map]
  rfl

theorem keys_mapValues (f : α → β) (t : Table κ α) : (t.mapValues f).keys = t.keys :=
  List.map_map ..

theorem mapValues_insert (f : α → β) (t : Table κ α) (k : κ) (a : α) :
    (t.insert k a).mapValues f = (t.mapValues f).insert k (f a) := by
  refine ext ?_
  show (t.insert k a).entries.map _ = _
  cases present : t.contains k with
  | true =>
    rw [insert_of_contains present, insert_of_contains (by rwa [contains_mapValues])]
    show (assign _ _ _).map _ = assign (t.entries.map _) _ _
    rw [assign, assign, List.map_map, List.map_map]
    refine List.map_congr_left fun e _ => ?_
    dsimp only [Function.comp]
    split <;> rfl
  | false =>
    rw [insert_of_not_contains present, insert_of_not_contains (by rwa [contains_mapValues])]
    exact List.map_append

theorem mapValues_erase (f : α → β) (t : Table κ α) (k : κ) :
    (t.erase k).mapValues f = (t.mapValues f).erase k := by
  refine ext ?_
  show List.map _ (List.filter _ _) = List.filter _ (List.map _ _)
  rw [List.filter_map]
  rfl

end Table

/-- A record without its flag. -/
def RoutineRecord.erased (r : RoutineRecord) : RoutineRecord := { r with permitted := false }

/-- A registry without the flags of its records. -/
def Registry.erased (registry : Registry) : Registry :=
  { registry with routines := registry.routines.mapValues RoutineRecord.erased }

/-- A draft without the flags of its records. -/
def Draft.erased (d : Draft) : Draft := { d with toRegistry := d.toRegistry.erased }

/-- A session without the flags of its records. -/
def Session.erased (s : Session) : Session := { s with draft := s.draft.erased }

/-- A bench without the flags of the records of its session. -/
def Bench.erased (b : Bench) : Bench := { b with session := b.session.erased }

theorem Draft.erased_erased (d : Draft) : d.erased.erased = d.erased := by
  have same : (d.routines.mapValues RoutineRecord.erased).mapValues RoutineRecord.erased =
      d.routines.mapValues RoutineRecord.erased := by
    refine Table.ext ?_
    show (d.routines.entries.map _).map _ = _
    rw [List.map_map]
    rfl
  unfold erased Registry.erased
  dsimp only
  rw [same]

/-- What is written in a draft is the same without the flags, but for flags. -/
def Draft.Blind (f : Draft → Except Error Draft) : Prop :=
  ∀ d : Draft, (f d.erased).map Draft.erased = (f d).map Draft.erased

namespace Draft

theorem Blind.eq {f : Draft → Except Error Draft} (blind : Blind f) {d d' : Draft}
    (same : d'.erased = d.erased) : (f d').map erased = (f d).map erased := by
  rw [← blind d', same, blind d]

/-- What does not write the flags of records and does the same without them is blind. -/
theorem blind_of_commutes {f : Draft → Except Error Draft}
    (h : ∀ d, f d.erased = (f d).map erased) : Blind f := by
  intro d
  rw [h d]
  cases f d with
  | error e => rfl
  | ok d' => exact congrArg Except.ok d'.erased_erased

/-- What is written in an open draft does the same without the flags if its value does. -/
theorem ensureOpen_erased {g : Draft → Draft} (h : ∀ d, g d.erased = (g d).erased) (d : Draft) :
    (d.erased.ensureOpen >>= fun d => pure (g d)) =
      (d.ensureOpen >>= fun d => pure (g d)).map erased := by
  by_cases closed : d.closed = true
  · rw [ensureOpen_of_closed closed, ensureOpen_of_closed (d := d.erased) closed]
    rfl
  · rw [Bool.not_eq_true] at closed
    rw [ensureOpen_of_open closed, ensureOpen_of_open (d := d.erased) closed]
    exact congrArg Except.ok (h d)

theorem erased_insert (d : Draft) (key : Key) (r : RoutineRecord) :
    erased { d with routines := d.routines.insert key r } =
      { d.erased with routines := d.erased.routines.insert key r.erased } := by
  unfold erased Registry.erased
  dsimp only
  rw [Table.mapValues_insert]

theorem blind_addPrivate (key : Key) : Blind (·.addPrivate key) :=
  blind_of_commutes (ensureOpen_erased fun _ => rfl)

theorem blind_addDependencies (units : List String) : Blind (·.addDependencies units) :=
  blind_of_commutes (ensureOpen_erased fun _ => rfl)

theorem blind_addImport (key : Key) (source : String) : Blind (·.addImport key source) :=
  blind_of_commutes (ensureOpen_erased fun _ => rfl)

theorem blind_setHooks (pre post : Option Hook) : Blind (·.setHooks pre post) :=
  blind_of_commutes (ensureOpen_erased fun _ => rfl)

theorem blind_record (key : Key) (r : RoutineRecord) : Blind (·.record key r) := by
  intro d
  dsimp only [record]
  by_cases closed : d.closed = true
  · rw [ensureOpen_of_closed closed, ensureOpen_of_closed (d := d.erased) closed]
    rfl
  · rw [Bool.not_eq_true] at closed
    rw [ensureOpen_of_open closed, ensureOpen_of_open (d := d.erased) closed]
    refine congrArg Except.ok ?_
    rw [erased_insert, erased_insert, erased_erased]

theorem withhold_eq (d : Draft) (key : Key) :
    Ledger.withhold d key = d.ensureOpen >>= fun d => pure
      { d with routines := d.routines.erase key, withheld := d.withheld.add key } := by
  unfold Ledger.withhold discard
  by_cases closed : d.closed = true
  · rw [ensureOpen_of_closed closed]
    rfl
  · rw [Bool.not_eq_true] at closed
    rw [ensureOpen_of_open closed]
    show addWithheld { d with routines := d.routines.erase key } key = _
    rw [addWithheld, ensureOpen_of_open (by exact closed)]
    rfl

theorem blind_withhold (key : Key) : Blind (Ledger.withhold · key) := by
  refine blind_of_commutes fun d => ?_
  rw [withhold_eq, withhold_eq]
  refine ensureOpen_erased (fun d => ?_) d
  unfold erased Registry.erased
  dsimp only
  rw [Table.mapValues_erase]

theorem blind_grant (key : Key) : Blind (Ledger.grant · key) := by
  intro d
  have recorded : d.erased.routines.get? key = (d.routines.get? key).map RoutineRecord.erased :=
    Table.get?_mapValues ..
  dsimp only [Ledger.grant]
  rw [recorded]
  cases d.routines.get? key with
  | none => rfl
  | some r => exact blind_record key { r with permitted := true } d

/-- **A grant is not seen.** -/
theorem erased_of_grant {d d' : Draft} {key : Key} (granted : Ledger.grant d key = .ok d') :
    d'.erased = d.erased := by
  unfold Ledger.grant at granted
  split at granted
  · cases granted
  · next r recorded =>
    obtain ⟨-, rfl⟩ := Session.ensureOpen_bind_eq_ok granted
    have stored : d.erased.routines.get? key = some r.erased :=
      (Table.get?_mapValues ..).trans (congrArg (Option.map _) recorded)
    rw [erased_insert]
    exact congrArg (fun routines => { d.erased with routines := routines })
      (Table.insert_eq_self stored)

end Draft

/-! ## What the snapshot covers -/

/-- Every inherited record is in the snapshot of the permissions. -/
def Session.Covered (s : Session) : Prop :=
  ∀ key r, s.draft.routines.get? key = some r → r.inherited = true →
    s.ledger.permissions.contains key = true

/-- A session stays covered when its records stay. -/
theorem Session.Covered.withDraft {s : Session} (h : s.Covered) {d : Draft}
    (same : d.routines = s.draft.routines) : Session.Covered { s with draft := d } := by
  intro key r recorded
  rw [same] at recorded
  exact h key r recorded

/-- A session stays covered when a declaration of its own is recorded. -/
theorem Session.Covered.recorded {s : Session} (h : s.Covered) (key : Key)
    (params guards : List Tree) (body : Tree) :
    Session.Covered { s with draft := { s.draft with
      routines := s.draft.routines.insert key (Ledger.nativeRecord params guards body) } } := by
  refine Table.forall_insert_of_agree h fun key' agrees inherited => ?_
  cases inherited

/-- **One event.**  Records are made by the unit itself, and grants leave them what they are. -/
theorem Moves.covered {w w' : Writing} {event : Event} (move : Moves w event w')
    (h : w.session.Covered) : w'.session.Covered := by
  intro key r recorded inherited
  show w'.ledger.permissions.contains key = true
  rw [move.ledger_eq]
  refine move.records
    (Q := fun key r => r.inherited = true → w.ledger.permissions.contains key = true)
    (fun e _ inherited => nomatch inherited) (fun covered inherited => covered inherited)
    (fun agrees covered inherited => ?_) h key r recorded inherited
  rw [← Table.contains_congr _ agrees]
  exact covered inherited

/-- **Every session is covered.**  The snapshot is taken when everything is recorded that the unit
inherits. -/
theorem Writing.Attained.covered {w : Writing} (h : w.Attained) : w.session.Covered := by
  induction h with
  | root config unit fields => exact fun _ _ recorded => nomatch recorded
  | extension _ _ _ _ _ trace =>
    refine trace.invariant (I := fun v => v.session.Covered) (fun _ _ _ _ move => move.covered) ?_
    intro key r recorded inherited
    exact Table.contains_iff_exists_get?.2 ⟨_, Ledger.get?_snapshot recorded inherited⟩
  | move _ _ move ih => exact move.covered ih

/-- **The flag of a record is not read.**  In a covered session, how a declaration is treated does
not depend on it. -/
theorem Session.Covered.assess_eq {s : Session} (h : s.Covered) {d : Draft}
    (same : d.erased = s.draft.erased) (key : Key) (spliced : Bool) :
    s.ledger.assess d key spliced = s.ledger.assess s.draft key spliced := by
  have withheld : d.withheld = s.draft.withheld := (congrArg (fun d : Draft => d.withheld) same :)
  have unit : d.unit = s.draft.unit := (congrArg (fun d : Draft => d.unit) same :)
  have records : (d.routines.get? key).map RoutineRecord.erased =
      (s.draft.routines.get? key).map RoutineRecord.erased := by
    rw [← Table.get?_mapValues, ← Table.get?_mapValues]
    exact congrArg (fun d : Draft => d.routines.get? key) same
  unfold Ledger.assess
  rw [withheld, unit]
  cases recorded : s.draft.routines.get? key with
  | none =>
    rw [recorded, Option.map_none, Option.map_eq_none_iff] at records
    rw [records]
  | some r =>
    rw [recorded, Option.map_some, Option.map_eq_some_iff] at records
    obtain ⟨r', recorded', same⟩ := records
    rw [recorded']
    have inherited : r'.inherited = r.inherited := (congrArg RoutineRecord.inherited same :)
    dsimp only
    rw [inherited]
    cases isInherited : r.inherited with
    | false => rfl
    | true =>
      obtain ⟨permission, known⟩ :=
        Table.contains_iff_exists_get?.1 (h key r recorded isInherited)
      rw [Ledger.mayReplace, Ledger.mayReplace, known]
      rfl

/-! ## Operations on twins -/

/-- The second bench differs from the first in the flags of the records at most, and the snapshot of
the first covers its records. -/
structure Bench.Twin (b b' : Bench) : Prop where
  /-- Without the flags they are the same. -/
  erased : b'.erased = b.erased
  /-- The first is covered. -/
  covered : b.session.Covered

namespace Bench.Twin

variable {b b' : Bench}

theorem draft (h : b.Twin b') : b'.session.draft.erased = b.session.draft.erased :=
  congrArg (fun b : Bench => b.session.draft) h.erased

theorem unit (h : b.Twin b') : b'.unit = b.unit := (congrArg Bench.unit h.erased :)

theorem ledger (h : b.Twin b') : b'.session.ledger = b.session.ledger :=
  (congrArg (fun b : Bench => b.session.ledger) h.erased :)

theorem inert (h : b.Twin b') : b'.session.inert = b.session.inert :=
  (congrArg (fun b : Bench => b.session.inert) h.erased :)

theorem program (h : b.Twin b') : b'.program = b.program := (congrArg Bench.program h.erased :)

theorem warnings (h : b.Twin b') : b'.warnings = b.warnings := (congrArg Bench.warnings h.erased :)

theorem privateKeys (h : b.Twin b') :
    b'.session.draft.privateKeys = b.session.draft.privateKeys :=
  (congrArg (fun d : Draft => d.privateKeys) h.draft :)

/-- Benches are twins if all they hold is. -/
theorem of_eq (draft : b'.session.draft.erased = b.session.draft.erased)
    (ledger : b'.session.ledger = b.session.ledger) (inert : b'.session.inert = b.session.inert)
    (program : b'.program = b.program) (warnings : b'.warnings = b.warnings)
    (covered : b.session.Covered) : b.Twin b' := by
  refine ⟨?_, covered⟩
  unfold Bench.erased Session.erased
  rw [draft, ledger, inert, program, warnings]

theorem withDraft (h : b.Twin b') {d d' : Draft} (same : d'.erased = d.erased)
    (covered : Session.Covered { b.session with draft := d }) :
    (b.withDraft d).Twin (b'.withDraft d') :=
  .of_eq same h.ledger h.inert h.program h.warnings covered

end Bench.Twin

/-- Writing the draft blindly. -/
theorem Bench.updateDraft_twins {f : Draft → Except Error Draft} (blind : Draft.Blind f)
    (covers : ∀ (s : Session) (d : Draft), f s.draft = .ok d → s.Covered →
      Session.Covered { s with draft := d }) :
    Matches Twin (updateDraft f) (updateDraft f) := by
  intro b b' twin
  have same := blind.eq twin.draft
  rw [exec_updateDraft, exec_updateDraft]
  cases written : f b.session.draft with
  | error e =>
    cases written' : f b'.session.draft with
    | error e' =>
      rw [written, written'] at same
      cases same
      exact ⟨rfl, twin⟩
    | ok d' =>
      rw [written, written'] at same
      cases same
  | ok d =>
    cases written' : f b'.session.draft with
    | error e' =>
      rw [written, written'] at same
      cases same
    | ok d' =>
      rw [written, written'] at same
      exact ⟨rfl, twin.withDraft (Except.ok.inj same) (covers _ _ written twin.covered)⟩

/-- Writing the draft blindly by an event. -/
theorem Bench.twins_of_moves {f : Draft → Except Error Draft} {event : Event}
    (blind : Draft.Blind f)
    (move : ∀ w : Writing, ∀ d, f w.draft = .ok d → Moves w event (w.withDraft d)) :
    Matches Twin (updateDraft f) (updateDraft f) :=
  updateDraft_twins blind fun s d written covered =>
    (move ⟨s, { base := none, fields := ∅ }⟩ d written).covered covered

/-- Writing the program, which is the same. -/
theorem Bench.updateProgram_twins (f : Program → Except Error Program) :
    Matches Twin (updateProgram f) (updateProgram f) := by
  intro b b' twin
  rw [exec_updateProgram, exec_updateProgram, twin.program]
  cases f b.program with
  | error e => exact ⟨rfl, twin⟩
  | ok p => exact ⟨rfl, .of_eq twin.draft twin.ledger twin.inert rfl twin.warnings twin.covered⟩

/-- Two stores differ in the flags of the records at most. -/
def Store.Twin (store store' : Store) : Prop :=
  ∀ unit, (store'.get? unit).map Registry.erased = (store.get? unit).map Registry.erased

theorem Store.Twin.contains {store store' : Store} (h : store.Twin store') (unit : String) :
    store'.published.contains unit = store.published.contains unit := by
  have same := congrArg Option.isSome (h unit)
  rwa [Option.isSome_map, Option.isSome_map, Store.get?, Store.get?, Table.get?_isSome,
    Table.get?_isSome] at same

/-- A unit is found in both stores, or in none. -/
theorem Store.Twin.require {store store' : Store} (h : store.Twin store') (unit byUnit : String) :
    (∃ e, store.require unit byUnit = .error e ∧ store'.require unit byUnit = .error e) ∨
      ∃ registry registry', store.require unit byUnit = .ok registry ∧
        store'.require unit byUnit = .ok registry' ∧ registry'.erased = registry.erased := by
  have same := h unit
  unfold Store.require
  cases found : store.get? unit with
  | none =>
    rw [found, Option.map_none, Option.map_eq_none_iff] at same
    rw [same]
    exact .inl ⟨_, rfl, rfl⟩
  | some registry =>
    rw [found, Option.map_some, Option.map_eq_some_iff] at same
    obtain ⟨registry', found', same⟩ := same
    rw [found']
    exact .inr ⟨registry, registry', rfl, rfl, same⟩

theorem Registry.contains_eq_of_erased {registry registry' : Registry}
    (same : registry'.erased = registry.erased) (key : Key) :
    registry'.routines.contains key = registry.routines.contains key := by
  rw [← Table.contains_mapValues RoutineRecord.erased,
    ← Table.contains_mapValues RoutineRecord.erased registry.routines]
  exact congrArg (fun r : Registry => r.routines.contains key) same

theorem Registry.keys_eq_of_erased {registry registry' : Registry}
    (same : registry'.erased = registry.erased) :
    registry'.routines.keys = registry.routines.keys := by
  rw [← Table.keys_mapValues RoutineRecord.erased,
    ← Table.keys_mapValues RoutineRecord.erased registry.routines]
  exact congrArg (fun r : Registry => r.routines.keys) same

namespace Session

variable {store store' : Store}

/-- **Preparing** reads which routines a base has, and none of their flags. -/
theorem prepareAll_twin (h : store.Twin store') {d d' : Draft} (same : d'.erased = d.erased)
    (declaration : Declaration) : prepareAll store' d' declaration = prepareAll store d declaration := by
  have unit : d'.unit = d.unit := (congrArg (fun d : Draft => d.unit) same :)
  have base : d'.base = d.base := (congrArg (fun d : Draft => d.base) same :)
  have imports : d'.imports = d.imports := (congrArg (fun d : Draft => d.imports) same :)
  have calls : ∀ key, checkSuperCall store' d' key = checkSuperCall store d key := by
    intro key
    unfold checkSuperCall
    rw [unit, base]
    split
    · rfl
    · next base _ =>
      rcases h.require base d.unit with ⟨e, required, required'⟩ |
        ⟨registry, registry', required, required', same⟩
      · rw [required, required']
      · rw [required, required']
        simp only [bind, Except.bind, Registry.contains_eq_of_erased same]
  have prepared : ∀ name expr, prepare store' d' name expr = prepare store d name expr := by
    intro name expr
    simp only [prepare, checkSuperCalls, calls, base, imports]
  unfold prepareAll
  rw [prepared, funext (prepared declaration.name)]

open Bench (Twin)

theorem declarePrivate_twins (e : Emission) : Matches Twin (declarePrivate e) (declarePrivate e) := by
  refine .get_bind fun b b' twin => ?_
  rw [Registry.contains_eq_of_erased (congrArg Draft.toRegistry twin.draft), twin.unit]
  split
  · exact .throw_bind _ _ _
  · refine Matches.bind (Bench.updateDraft_twins (Draft.blind_addPrivate e.key) ?_) fun _ => .pure _
    intro s d written covered
    exact covered.withDraft (congrArg (·.routines) (ensureOpen_bind_eq_ok written).2)

/-- **What the ledger lets in** is the same, and so is the draft but for flags. -/
theorem declare_twin {s s' : Session} (draft : s'.draft.erased = s.draft.erased)
    (ledger : s'.ledger = s.ledger) (covered : s.Covered) (e : Emission) (spliced : Bool) :
    (∃ error, s.ledger.declare s.draft e.key e.params e.guards e.body spliced = .error error ∧
        s'.ledger.declare s'.draft e.key e.params e.guards e.body spliced = .error error) ∨
      ∃ admission warning d d',
        s.ledger.declare s.draft e.key e.params e.guards e.body spliced =
          .ok (admission, warning, d) ∧
        s'.ledger.declare s'.draft e.key e.params e.guards e.body spliced =
          .ok (admission, warning, d') ∧
        d'.erased = d.erased ∧ Session.Covered { s with draft := d } := by
  have same := covered.assess_eq draft e.key spliced
  rw [ledger]
  cases assessed : s.ledger.assess s.draft e.key spliced with
  | error error =>
    rw [assessed] at same
    refine .inl ⟨error, ?_, ?_⟩
    · rw [Ledger.declare, assessed]
      rfl
    · rw [Ledger.declare, same]
      rfl
  | ok treatment =>
    obtain ⟨admission, warning⟩ := treatment
    rw [assessed] at same
    cases recorded : admission.isRecorded with
    | false =>
      exact .inr ⟨admission, warning, _, _, Ledger.declare_of_unrecorded assessed recorded,
        Ledger.declare_of_unrecorded same recorded, draft, covered⟩
    | true =>
      have closed : s'.draft.closed = s.draft.closed :=
        (congrArg Draft.closed draft :)
      have unit : s'.draft.unit = s.draft.unit := (congrArg (fun d : Draft => d.unit) draft :)
      rw [Ledger.declare_of_recorded assessed recorded, Ledger.declare_of_recorded same recorded]
      by_cases isClosed : s.draft.closed = true
      · rw [if_pos isClosed, if_pos (closed.trans isClosed), unit]
        exact .inl ⟨_, rfl, rfl⟩
      · rw [if_neg isClosed, if_neg (closed ▸ isClosed)]
        refine .inr ⟨admission, warning, _, _, rfl, rfl, ?_,
          covered.recorded e.key e.params e.guards e.body⟩
        rw [Draft.erased_insert, Draft.erased_insert, draft]

theorem declarePublic_twins (e : Emission) (units : NameSet) (spliced : Bool) :
    Matches Twin (declarePublic e units spliced) (declarePublic e units spliced) := by
  refine .get_bind fun b b' twin => ?_
  rw [twin.privateKeys, twin.unit]
  split
  · exact .throw_bind _ _ _
  · refine .lift_bind ?_
    refine (declare_twin twin.draft twin.ledger twin.covered e spliced).imp_right ?_
    rintro ⟨admission, warning, d, d', declared, declared', same, covered⟩
    refine ⟨_, _, declared, declared', ?_⟩
    refine .set_bind (twin.withDraft same covered) (Matches.bind (.modify fun c c' twin => ?_)
      fun _ => ?_)
    · exact .of_eq twin.draft twin.ledger twin.inert twin.program
        (congrArg (· ++ warning.toList) twin.warnings) twin.covered
    · dsimp only
      split
      · refine Matches.bind (Bench.updateDraft_twins
          (Draft.blind_addDependencies units.toList) ?_) fun _ => .pure _
        intro s d written covered
        exact covered.withDraft (congrArg (·.routines) (ensureOpen_bind_eq_ok written).2)
      · exact .pure _

theorem deliver_twins (e : Emission) (admission : Admission) :
    Matches Twin (deliver e admission) (deliver e admission) := by
  have put : Matches Twin (do let b ← get; Bench.updateProgram (·.emit b.unit e))
      (do let b ← get; Bench.updateProgram (·.emit b.unit e)) := by
    refine .get_bind fun b b' twin => ?_
    rw [twin.unit]
    exact Bench.updateProgram_twins _
  cases admission with
  | inert =>
    exact .modify fun b b' twin => .of_eq twin.draft twin.ledger (congrArg (· ++ [e]) twin.inert)
      twin.program twin.warnings twin.covered
  | record | replace | isLocal => exact put

theorem declareVariant_twins (declaration : Declaration) (units : NameSet) (spliced : Bool)
    (v : Tree.Variant) :
    Matches Twin (declareVariant declaration units spliced v)
      (declareVariant declaration units spliced v) := by
  have delivered : ∀ e admission, Matches Twin (do deliver e admission; return admission)
      (do deliver e admission; return admission) :=
    fun e admission => (deliver_twins e admission).bind fun _ => .pure _
  unfold declareVariant
  dsimp only
  split
  · exact (declarePrivate_twins _).bind (delivered _)
  · exact (declarePublic_twins _ _ _).bind (delivered _)

/-- **Declarations.** -/
theorem define_twins (h : store.Twin store') (declaration : Declaration) (spliced : Bool) :
    Matches Twin (define store declaration spliced) (define store' declaration spliced) := by
  refine .get_bind fun b b' twin => ?_
  have config : b'.session.config = b.session.config := congrArg Ledger.config twin.ledger
  rw [prepareAll_twin h twin.draft, twin.unit, config]
  refine .lift_bind ?_
  cases prepareAll store b.session.draft declaration with
  | error e => exact .inl ⟨e, rfl, rfl⟩
  | ok result =>
    refine .inr ⟨result, result, rfl, rfl, ?_⟩
    refine Matches.bind (.mapM fun v _ => declareVariant_twins declaration _ spliced v)
      fun admissions => ?_
    dsimp only
    split
    · exact (Bench.updateProgram_twins _).bind fun _ => .pure _
    · exact .pure _

theorem grant_twins (key : Key) : Matches Twin (grant key) (grant key) :=
  Bench.twins_of_moves (Draft.blind_grant key) moves_grant

theorem withhold_twins (key : Key) : Matches Twin (withhold key) (withhold key) :=
  Bench.twins_of_moves (Draft.blind_withhold key) moves_withhold

theorem setHooks_twins (pre post : Option Hook) :
    Matches Twin (setHooks pre post) (setHooks pre post) :=
  Bench.twins_of_moves (Draft.blind_setHooks pre post) moves_setHooks

theorem importRoutines_twins (h : store.Twin store') (source : Value) (keys : Option (List Key)) :
    Matches Twin (importRoutines store source keys) (importRoutines store' source keys) := by
  refine .get_bind fun b b' twin => .lift_bind ?_
  have found : (∃ e, store.requireValue source b.unit = .error e ∧
      store'.requireValue source b'.unit = .error e) ∨
        ∃ registry registry', store.requireValue source b.unit = .ok registry ∧
          store'.requireValue source b'.unit = .ok registry' ∧
          registry'.erased = registry.erased := by
    rw [twin.unit]
    unfold Store.requireValue
    split
    · exact h.require _ _
    · exact .inl ⟨_, rfl, rfl⟩
  refine found.imp_right ?_
  rintro ⟨registry, registry', required, required', same⟩
  refine ⟨registry, registry', required, required', ?_⟩
  rw [Registry.keys_eq_of_erased same]
  refine .forM fun key _ => ?_
  have unit : registry'.unit = registry.unit := (congrArg Registry.unit same :)
  unfold importRoutine
  rw [Registry.contains_eq_of_erased same, unit]
  split
  · exact Bench.twins_of_moves (Draft.blind_addImport key _) moves_importKey
  · exact .throw _

theorem grantRecorded_twins (name : String) (arity : Nat) (admissions : List Admission) :
    Matches Twin (grantRecorded name arity admissions) (grantRecorded name arity admissions) := by
  induction admissions generalizing arity with
  | nil => exact .pure _
  | cons admission admissions ih =>
    unfold grantRecorded
    split
    · exact (grant_twins _).bind fun _ => ih (arity + 1)
    · exact ih (arity + 1)

/-- **Statements.** -/
theorem run_twins (h : store.Twin store') (spliced : Bool) (statement : Statement) :
    Matches Twin (run store spliced statement) (run store' spliced statement) := by
  cases statement with
  | define declaration =>
    refine (define_twins h declaration spliced).bind fun admissions => ?_
    split
    · exact grantRecorded_twins _ _ _
    · exact .pure _
  | grant key => exact grant_twins key
  | withhold key => exact withhold_twins key

/-! ### Grants that are left out -/

/-- A grant leaves a twin of what was there. -/
theorem twin_of_grant {b b' : Bench} (twin : b.Twin b') (key : Key) :
    (exec (grant key) b).2.Twin b' := by
  have moves : ∀ d, Ledger.grant b.session.draft key = .ok d →
      Session.Covered { b.session with draft := d } := fun d granted =>
    (moves_grant ⟨b.session, { base := none, fields := ∅ }⟩ d granted).covered twin.covered
  rw [grant, Bench.exec_updateDraft]
  cases granted : Ledger.grant b.session.draft key with
  | error e => exact twin
  | ok d =>
    refine .of_eq ?_ twin.ledger twin.inert twin.program twin.warnings (moves d granted)
    exact twin.draft.trans (Draft.erased_of_grant granted).symm

theorem twin_of_grantRecorded {b b' : Bench} (twin : b.Twin b') (name : String) (arity : Nat)
    (admissions : List Admission) :
    (exec (grantRecorded name arity admissions) b).2.Twin b' := by
  induction admissions generalizing arity b with
  | nil => exact twin
  | cons admission admissions ih =>
    unfold grantRecorded
    split
    · have granted := twin_of_grant twin (Key.ofCount name arity)
      rw [Step.exec_bind]
      cases outcome : exec (grant (Key.ofCount name arity)) b with
      | mk result b₁ =>
        rw [outcome] at granted
        cases result with
        | error e => exact granted
        | ok _ => exact ih granted (arity + 1)
    · exact ih twin (arity + 1)

/-- **A declaration that is no longer marked as overridable** is treated in the same way. -/
theorem run_cleared (h : store.Twin store') {b b' : Bench} (twin : b.Twin b') (loaded : b.Loaded)
    (declaration : Declaration) (spliced : Bool) :
    (exec (run store' spliced (.define { declaration with overridable := false })) b').1 =
        (exec (run store spliced (.define declaration)) b).1 ∧
      (exec (run store spliced (.define declaration)) b).2.Twin
        (exec (run store' spliced (.define { declaration with overridable := false })) b').2 := by
  obtain ⟨same, twin₁⟩ := define_twins h declaration spliced twin
  have cleared : define store' { declaration with overridable := false } spliced =
      define store' declaration spliced := rfl
  simp only [run, Step.exec_bind, cleared]
  cases outcome : exec (define store declaration spliced) b with
  | mk result b₁ =>
    cases outcome' : exec (define store' declaration spliced) b' with
    | mk result' b₁' =>
      rw [outcome, outcome'] at same twin₁
      cases same
      cases result with
      | error e => exact ⟨rfl, twin₁⟩
      | ok admissions =>
        cases overridable : declaration.overridable with
        | false => exact ⟨rfl, twin₁⟩
        | true =>
          have granted := twin_of_grantRecorded twin₁ declaration.name
            (Tree.leastArity declaration.params) admissions
          obtain ⟨b₂, done⟩ := exec_grantRecorded (grantable_of_define loaded outcome)
          rw [done] at granted
          dsimp only
          rw [if_pos rfl, done]
          exact ⟨rfl, granted⟩

/-! ### Histories and closing -/

theorem variantHistory_twin {b b' : Bench} (twin : b.Twin b') (declaration : Declaration)
    (units : NameSet) (spliced : Bool) (v : Tree.Variant) :
    variantHistory declaration units spliced v b' =
      variantHistory declaration units spliced v b := by
  unfold variantHistory
  rw [(declareVariant_twins declaration units spliced v twin).1]

/-- **Twins treat declarations in the same way.** -/
theorem defineHistory_twin (h : store.Twin store') {b b' : Bench} (twin : b.Twin b')
    (declaration : Declaration) (spliced : Bool) :
    defineHistory store' declaration spliced b' = defineHistory store declaration spliced b := by
  have config : b'.session.config = b.session.config := congrArg Ledger.config twin.ledger
  unfold defineHistory
  rw [prepareAll_twin h twin.draft, config]
  split
  · exact Step.historyEach_eq_of_matches (fun v _ => declareVariant_twins declaration _ spliced v)
      (fun v _ b b' twin => variantHistory_twin twin declaration _ spliced v) twin
  · rfl

/-- Of two drafts that differ in flags at most, both are closed, or neither. -/
theorem close_twin {d d' : Draft} (same : d'.erased = d.erased) :
    (∃ e, d.close = .error e ∧ d'.close = .error e) ∨
      (d.close = .ok (d.toRegistry, { d with closed := true }) ∧
        d'.close = .ok (d'.toRegistry, { d' with closed := true })) := by
  have closed : d'.closed = d.closed := (congrArg Draft.closed same :)
  have unit : d'.unit = d.unit := (congrArg (fun d : Draft => d.unit) same :)
  have withheld : d'.withheld = d.withheld := (congrArg (fun d : Draft => d.withheld) same :)
  have records : d'.recordsWithheld = d.recordsWithheld := by
    unfold Draft.recordsWithheld
    rw [withheld, funext (Registry.contains_eq_of_erased (congrArg Draft.toRegistry same))]
  rw [Draft.close_eq, Draft.close_eq, closed, records, unit]
  by_cases isClosed : d.closed = true
  · rw [if_pos isClosed, if_pos isClosed]
    exact .inl ⟨_, rfl, rfl⟩
  · rw [if_neg isClosed, if_neg isClosed]
    split
    · exact .inl ⟨_, rfl, rfl⟩
    · exact .inr ⟨rfl, rfl⟩

/-- **Closing** does not ask for flags; the registries differ in them at most. -/
theorem close_twins {b b' : Bench} (twin : b.Twin b') :
    (exec close b').1.map Registry.erased = (exec close b).1.map Registry.erased ∧
      (exec close b).2.Twin (exec close b').2 := by
  have registry : b'.session.draft.toRegistry.erased = b.session.draft.toRegistry.erased :=
    (congrArg Draft.toRegistry twin.draft :)
  have withheld : b'.session.draft.withheld = b.session.draft.withheld :=
    (congrArg Registry.withheld registry :)
  have completes : b'.program.closeUnit b'.unit b'.session.draft.toRegistry =
      b.program.closeUnit b.unit b.session.draft.toRegistry := by
    unfold Program.closeUnit
    rw [twin.program, twin.unit, withheld]
  rw [exec_close, exec_close]
  rcases close_twin twin.draft with ⟨e, refused, refused'⟩ | ⟨done, done'⟩
  · rw [refused, refused']
    exact ⟨rfl, twin⟩
  · have written : (b.withDraft { b.session.draft with closed := true }).Twin
        (b'.withDraft { b'.session.draft with closed := true }) :=
      twin.withDraft (congrArg (fun d : Draft => { d with closed := true }) twin.draft)
        (twin.covered.withDraft rfl)
    rw [done, done']
    dsimp only
    rw [completes]
    split
    · exact ⟨rfl, written⟩
    · exact ⟨congrArg Except.ok registry, .of_eq written.draft written.ledger written.inert rfl
        written.warnings written.covered⟩

end Session

/-! ## Commands on twins -/

namespace Command

/-- The first commands are those of a session; the second ones lack some of the grants among them,
and some of the marks of declarations as overridable. -/
inductive Thins (unit : String) : List Command → List Command → Prop where
  /-- There is no command. -/
  | nil : Thins unit [] []
  /-- A command stays. -/
  | keep {command : Command} {commands commands' : List Command} (own : command.unit = unit)
      (working : command.isOpening = false) (rest : Thins unit commands commands') :
      Thins unit (command :: commands) (command :: commands')
  /-- A grant is left out. -/
  | grant {key : Key} {commands commands' : List Command} (rest : Thins unit commands commands') :
      Thins unit (.grant unit key :: commands) commands'
  /-- A statement that grants is left out. -/
  | runGrant {key : Key} {spliced : Bool} {commands commands' : List Command}
      (rest : Thins unit commands commands') :
      Thins unit (.run unit (.grant key) spliced :: commands) commands'
  /-- A declaration is no longer marked as overridable. -/
  | define {declaration : Declaration} {commands commands' : List Command}
      (rest : Thins unit commands commands') :
      Thins unit (.define unit declaration :: commands)
        (.define unit { declaration with overridable := false } :: commands')
  /-- A statement that declares is no longer marked as overridable. -/
  | runDefine {declaration : Declaration} {spliced : Bool} {commands commands' : List Command}
      (rest : Thins unit commands commands') :
      Thins unit (.run unit (.define declaration) spliced :: commands)
        (.run unit (.define { declaration with overridable := false }) spliced :: commands')

variable {store store' : Store}

/-- A session works at the same on two stores that are twins, with twins to show for it. -/
theorem work?_twins (h : store.Twin store') {command : Command} {m : Step Bench Reply}
    (isWork : command.work? store = some m) :
    ∃ m', command.work? store' = some m' ∧ Matches Bench.Twin m m' := by
  cases command with
  | openRoot | openExtension | finish => cases isWork
  | define unit declaration =>
    cases isWork
    exact ⟨_, rfl, (Session.define_twins h declaration false).bind fun _ => .pure _⟩
  | grant unit key =>
    cases isWork
    exact ⟨_, rfl, (Session.grant_twins key).bind fun _ => .pure _⟩
  | withhold unit key =>
    cases isWork
    exact ⟨_, rfl, (Session.withhold_twins key).bind fun _ => .pure _⟩
  | importRoutines unit source keys =>
    cases isWork
    exact ⟨_, rfl, (Session.importRoutines_twins h source keys).bind fun _ => .pure _⟩
  | setHooks unit pre post =>
    cases isWork
    exact ⟨_, rfl, (Session.setHooks_twins pre post).bind fun _ => .pure _⟩
  | run unit statement spliced =>
    cases isWork
    exact ⟨_, rfl, (Session.run_twins h spliced statement).bind fun _ => .pure _⟩

theorem history_twin (h : store.Twin store') {b b' : Bench} (twin : b.Twin b')
    (command : Command) : command.history store' b' = command.history store b := by
  cases command with
  | define unit declaration => exact Session.defineHistory_twin h twin declaration false
  | run unit statement spliced =>
    cases statement with
    | define declaration => exact Session.defineHistory_twin h twin declaration spliced
    | grant | withhold => rfl
  | openRoot | openExtension | grant | withhold | importRoutines | setHooks | finish => rfl

end Command

/-- A reply without the flags of the registry in it. -/
def Reply.erased : Reply → Reply
  | .published registry => .published registry.erased
  | reply => reply

namespace Workspace

variable {w w' : Workspace} {unit : String}

/-- Two workspaces differ in the flags of the records of one unit at most: those of its session, and
those of its registry if it is published. -/
structure Twin (unit : String) (w w' : Workspace) : Prop where
  /-- The programs are the same. -/
  program : w'.program = w.program
  /-- The warnings are the same. -/
  warnings : w'.warnings = w.warnings
  /-- The sessions of the unit differ in the flags of their records. -/
  session : ∃ s s', w.sessions.get? unit = some s ∧ w'.sessions.get? unit = some s' ∧
    s'.erased = s.erased
  /-- The other sessions are the same. -/
  sessions : ∀ other, other ≠ unit → w'.sessions.get? other = w.sessions.get? other
  /-- The registries of the unit differ in the flags of their records. -/
  published : (w'.store.get? unit).map Registry.erased = (w.store.get? unit).map Registry.erased
  /-- The other registries are the same. -/
  store : ∀ other, other ≠ unit → w'.store.get? other = w.store.get? other

theorem Twin.refl {s : Session} (session : w.sessions.get? unit = some s) : w.Twin unit w :=
  ⟨rfl, rfl, ⟨s, s, session, session, rfl⟩, fun _ _ => rfl, rfl, fun _ _ => rfl⟩

theorem Twin.stores (h : w.Twin unit w') : w.store.Twin w'.store := by
  intro other
  by_cases same : other = unit
  · subst same
    exact h.published
  · rw [h.store other same]

/-- The benches of twins are twins. -/
theorem Twin.benches (h : w.Twin unit w') (coherent : w.Coherent) {s s' : Session}
    (session : w.sessions.get? unit = some s) (same : s'.erased = s.erased) :
    (w.bench s).Twin (w'.bench s') := by
  obtain ⟨-, image, -, attained⟩ := coherent.session session
  refine ⟨?_, attained.covered⟩
  show Bench.mk s'.erased w'.program w'.warnings = Bench.mk s.erased w.program w.warnings
  rw [same, h.program, h.warnings]

/-- What twins leave behind that have worked. -/
theorem Twin.withBench (h : w.Twin unit w') {b b' : Bench} (twin : b.Twin b') :
    (w.withBench unit b).Twin unit (w'.withBench unit b') where
  program := twin.program
  warnings := twin.warnings
  session := ⟨b.session, b'.session, (get?_sessions_insert ..).trans (if_pos rfl),
    (get?_sessions_insert ..).trans (if_pos rfl), (congrArg Bench.session twin.erased :)⟩
  sessions other ne := by
    show (w'.sessions.insert unit b'.session).get? other = (w.sessions.insert unit b.session).get? other
    rw [get?_sessions_insert, get?_sessions_insert, if_neg (Ne.symm ne), if_neg (Ne.symm ne)]
    exact h.sessions other ne
  published := h.published
  store := h.store

/-- **A command that a session works at** has the same outcome for twins. -/
theorem Twin.after_work (h : w.Twin unit w') (coherent : w.Coherent) {command command' : Command}
    (own : command.unit = unit) (own' : command'.unit = unit) {m m' : Step Bench Reply}
    (isWork : command.work? w.store = some m) (isWork' : command'.work? w'.store = some m')
    (twins : ∀ b b' : Bench, b.Loaded → b.Twin b' →
      (exec m' b').1 = (exec m b).1 ∧ (exec m b).2.Twin (exec m' b').2) :
    w'.outcome command' = w.outcome command ∧
      (w.after command).Twin unit (w'.after command') := by
  obtain ⟨s, s', session, session', same⟩ := h.session
  obtain ⟨outcome, twin⟩ :=
    twins _ _ (coherent.loaded session) (h.benches coherent session same)
  have performed := exec_perform_of_work isWork
  have performed' := exec_perform_of_work isWork'
  rw [own, session] at performed
  rw [own', session'] at performed'
  have after : w.after command = w.withBench unit (exec m (w.bench s)).2 :=
    congrArg Prod.snd performed
  have after' : w'.after command' = w'.withBench unit (exec m' (w'.bench s')).2 :=
    congrArg Prod.snd performed'
  refine ⟨?_, ?_⟩
  · exact (congrArg Prod.fst performed').trans (outcome.trans (congrArg Prod.fst performed).symm)
  · rw [after, after']
    exact h.withBench twin

/-- What twins leave behind that have published their registries. -/
theorem Twin.publishing (h : w.Twin unit w') {registry registry' : Registry}
    (same : registry'.erased = registry.erased) (named : registry.unit = unit) :
    (w.publishing registry).Twin unit (w'.publishing registry') where
  program := h.program
  warnings := h.warnings
  session := h.session
  sessions := h.sessions
  published := by
    have named' : registry'.unit = unit := (congrArg Registry.unit same :).trans named
    show ((w'.store.published.insert registry'.unit registry').get? unit).map _ =
      ((w.store.published.insert registry.unit registry).get? unit).map _
    rw [named, named', Table.get?_insert_self _ (by simp), Table.get?_insert_self _ (by simp)]
    exact congrArg some same
  store other ne := by
    have named' : registry'.unit = unit := (congrArg Registry.unit same :).trans named
    show (w'.store.published.insert registry'.unit registry').get? other =
      (w.store.published.insert registry.unit registry).get? other
    rw [named, named', Table.get?_insert, Table.get?_insert, if_neg (by simpa using Ne.symm ne),
      if_neg (by simpa using Ne.symm ne)]
    exact h.store other ne

/-- A session is closed with the registry of its unit. -/
theorem Coherent.unit_of_close (h : w.Coherent) {s : Session}
    (session : w.sessions.get? unit = some s) {registry : Registry} {b : Bench}
    (done : exec Session.close (w.bench s) = (.ok registry, b)) : registry.unit = unit := by
  rcases Session.close_runs (h.loaded session) with
    ⟨error, failed, -⟩ | ⟨image, b', -, -, failed, -⟩ | ⟨registry', b', done', runs, -, rfl⟩
  · cases failed.symm.trans done
  · cases failed.symm.trans done
  · cases done'.symm.trans done
    exact runs.unit_eq.trans (h.session session).1

/-- **Finishing** publishes registries that differ in flags at most. -/
theorem Twin.after_finish (h : w.Twin unit w') (coherent : w.Coherent) :
    (w'.outcome (.finish unit)).map Reply.erased = (w.outcome (.finish unit)).map Reply.erased ∧
      (w.after (.finish unit)).Twin unit (w'.after (.finish unit)) := by
  obtain ⟨s, s', session, session', same⟩ := h.session
  obtain ⟨outcome, closed⟩ := Session.close_twins (h.benches coherent session same)
  show (exec (perform (.finish unit)) w').1.map Reply.erased =
      (exec (perform (.finish unit)) w).1.map Reply.erased ∧
    Twin unit (exec (perform (.finish unit)) w).2 (exec (perform (.finish unit)) w').2
  rw [exec_perform_finish session, exec_perform_finish session']
  cases done : exec Session.close (w.bench s) with
  | mk result b =>
    cases done' : exec Session.close (w'.bench s') with
    | mk result' b' =>
      rw [done, done'] at outcome closed
      have stays := h.withBench closed
      cases result with
      | error e =>
        cases result' with
        | error e' =>
          cases outcome
          exact ⟨rfl, stays⟩
        | ok registry' => cases outcome
      | ok registry =>
        cases result' with
        | error e' => cases outcome
        | ok registry' =>
          have erased : registry'.erased = registry.erased := Except.ok.inj outcome
          have named := coherent.unit_of_close session done
          have named' : registry'.unit = registry.unit := (congrArg Registry.unit erased :)
          have published := stays.stores.contains registry.unit
          dsimp only
          rw [exec_publish, exec_publish, named', published]
          split
          · exact ⟨rfl, stays⟩
          · refine ⟨congrArg (fun r => Except.ok (Reply.published r)) erased, ?_⟩
            have both := stays.publishing erased named
            unfold Workspace.publishing at both
            rwa [named'] at both

/-- **One command of twins.** -/
theorem Twin.after (h : w.Twin unit w') (coherent : w.Coherent) {command : Command}
    (own : command.unit = unit) (working : command.isOpening = false) :
    w'.commandHistory unit command = w.commandHistory unit command ∧
      (w'.outcome command).map Reply.erased = (w.outcome command).map Reply.erased ∧
      (w.after command).Twin unit (w'.after command) := by
  have history : w'.commandHistory unit command = w.commandHistory unit command := by
    obtain ⟨s, s', session, session', same⟩ := h.session
    unfold commandHistory
    rw [if_pos own, if_pos own, session, session']
    exact Command.history_twin h.stores (h.benches coherent session same) command
  refine ⟨history, ?_⟩
  cases isWork : command.work? w.store with
  | some m =>
    obtain ⟨m', isWork', twins⟩ := Command.work?_twins h.stores isWork
    obtain ⟨outcome, after⟩ :=
      h.after_work coherent own own isWork isWork' fun b b' _ twin => twins twin
    exact ⟨congrArg _ outcome, after⟩
  | none =>
    cases command with
    | openRoot | openExtension => cases working
    | finish name =>
      obtain rfl : name = unit := own
      exact h.after_finish coherent
    | define | grant | withhold | importRoutines | setHooks | run => cases isWork

/-- A declaration that is no longer marked as overridable has the same outcome. -/
theorem Twin.after_runDefine (h : w.Twin unit w') (coherent : w.Coherent)
    (declaration : Declaration) (spliced : Bool) :
    w'.outcome (.run unit (.define { declaration with overridable := false }) spliced) =
        w.outcome (.run unit (.define declaration) spliced) ∧
      (w.after (.run unit (.define declaration) spliced)).Twin unit
        (w'.after (.run unit (.define { declaration with overridable := false }) spliced)) := by
  refine h.after_work coherent rfl rfl rfl rfl fun b b' loaded twin => ?_
  obtain ⟨same, after⟩ := Session.run_cleared h.stores twin loaded declaration spliced
  rw [Step.exec_bind_pure, Step.exec_bind_pure, same]
  exact ⟨rfl, after⟩

/-- A grant that is left out leaves twins behind. -/
theorem Twin.after_grant (h : w.Twin unit w') (coherent : w.Coherent) {command : Command}
    {key : Key} (own : command.unit = unit)
    (isGrant : command.work? w.store = some (do Session.grant key; return Reply.done)) :
    (w.after command).Twin unit w' := by
  obtain ⟨s, s', session, session', same⟩ := h.session
  have granted := Session.twin_of_grant (h.benches coherent session same) key
  have performed := exec_perform_of_work isGrant
  rw [own, session] at performed
  dsimp only at performed
  rw [Step.exec_bind_pure (Session.grant key) fun _ => Reply.done] at performed
  have after : w.after command =
      w.withBench unit (exec (Session.grant key) (w.bench s)).2 := congrArg Prod.snd performed
  have stays := h.withBench granted
  rw [withBench_bench session'] at stays
  rwa [after]

/-- Grants treat nothing. -/
theorem commandHistory_of_idle {command : Command}
    (idle : ∀ b, command.history w.store b = []) : w.commandHistory unit command = [] := by
  unfold commandHistory
  split
  · split
    · exact idle _
    · rfl
  · rfl

/-- What two runs have in common that differ in grants: what is treated, and how the commands of the
second come out; and they lead to twins. -/
structure Alike (unit : String) (w : Workspace) (commands : List Command) (w' : Workspace)
    (commands' : List Command) : Prop where
  /-- The same is treated, in the same order and in the same way. -/
  history : w'.history unit commands' = w.history unit commands
  /-- The outcomes of the second run are those of the first, without those of the grants. -/
  outcomes : ((w'.outcomes commands').map (·.map Reply.erased)).Sublist
    ((w.outcomes commands).map (·.map Reply.erased))
  /-- What they lead to differs in flags at most. -/
  twin : (w.afterAll commands).Twin unit (w'.afterAll commands')

/-- Runs are alike that begin with commands that are. -/
theorem Alike.cons {command command' : Command} {commands commands' : List Command}
    (treated : w'.commandHistory unit command' = w.commandHistory unit command)
    (outcome : (w'.outcome command').map Reply.erased = (w.outcome command).map Reply.erased)
    (later : Alike unit (w.after command) commands (w'.after command') commands') :
    Alike unit w (command :: commands) w' (command' :: commands') where
  history := by rw [Workspace.history, Workspace.history, treated, later.history]
  outcomes := by
    rw [Workspace.outcomes, Workspace.outcomes, List.map_cons, List.map_cons, outcome]
    exact later.outcomes.cons_cons _
  twin := later.twin

/-- Runs are alike of which the first begins with a grant. -/
theorem Alike.of_idle {command : Command} {commands commands' : List Command}
    (idle : ∀ b, command.history w.store b = [])
    (later : Alike unit (w.after command) commands w' commands') :
    Alike unit w (command :: commands) w' commands' where
  history := by rw [Workspace.history, commandHistory_of_idle idle, List.nil_append, later.history]
  outcomes := later.outcomes.cons _
  twin := later.twin

/-- **Runs of twins are alike** if the second has the commands of the first but for grants. -/
theorem Twin.alike (h : w.Twin unit w') (coherent : w.Coherent) {commands commands' : List Command}
    (thins : Command.Thins unit commands commands') : Alike unit w commands w' commands' := by
  induction thins generalizing w w' with
  | nil => exact ⟨rfl, .slnil, h⟩
  | @keep command _ _ own working rest ih =>
    obtain ⟨treated, outcome, twin⟩ := h.after coherent own working
    exact .cons treated outcome (ih twin (coherent.after command))
  | @grant key _ _ rest ih =>
    exact .of_idle (fun _ => rfl) (ih (h.after_grant coherent rfl rfl) (coherent.after _))
  | @runGrant key spliced _ _ rest ih =>
    exact .of_idle (fun _ => rfl) (ih (h.after_grant coherent rfl rfl) (coherent.after _))
  | @define declaration _ _ rest ih =>
    -- A declaration on its own does not read its mark.
    obtain ⟨treated, outcome, twin⟩ :=
      h.after coherent (show (Command.define unit declaration).unit = unit from rfl) rfl
    exact .cons treated outcome (ih twin (coherent.after _))
  | @runDefine declaration spliced _ _ rest ih =>
    obtain ⟨outcome, twin⟩ := h.after_runDefine coherent declaration spliced
    have own : (Command.run unit (.define declaration) spliced).unit = unit := rfl
    have treated := (h.after coherent own rfl).1
    exact .cons treated (congrArg _ outcome) (ih twin (coherent.after _))

/-- **Grants are for descendants.**  Take the commands of a session, and leave out any of the grants
among them and any of the marks of declarations as overridable.  The same declarations are treated
in the same order and in the same way, so the same is put into the program; the other commands
answer the same and issue the same warnings; and what the two runs lead to differs in nothing but
the flags of the records of the unit. -/
theorem Reachable.thinned (h : w.Reachable) {s : Session} (session : w.sessions.get? unit = some s)
    {commands commands' : List Command} (thins : Command.Thins unit commands commands') :
    Alike unit w commands w commands' :=
  (Twin.refl session).alike h.coherent thins

/-- A workspace in which an extension of a unit with a locked routine was opened. -/
def grantingWorkspace : Workspace :=
  afterAll ∅ [.openRoot {} "base" (.list []),
    .define "base" ⟨"greet", [], .literal (.text "hello"), [], false, false⟩,
    .finish "base",
    .openExtension {} "child" "base" (.list [])]

/-- A declaration without parameters, as a statement of the extension. -/
def childStatement (name : String) (overridable : Bool) : Command :=
  .run "child" (.define ⟨name, [], .literal (.text "own"), [], false, overridable⟩) false

/-- The extension grants the locked routine before it declares it, and what it declares after. -/
def grantingCommands : List Command :=
  [.grant "child" (.ofCount "greet" 0), childStatement "greet" true, childStatement "size" true,
    .finish "child"]

/-- The same without the grants. -/
def grantlessCommands : List Command :=
  [childStatement "greet" false, childStatement "size" false, .finish "child"]

/-- The flags of the records of the registry that the extension published. -/
def childFlags (w : Workspace) : Option (List (Key × Bool)) :=
  (w.store.get? "child").map fun registry =>
    registry.routines.entries.map fun e => (e.1, e.2.permitted)

/-- The grants unlock nothing for the extension, only for what extends it. -/
theorem thinned_child :
    Alike "child" grantingWorkspace grantingCommands grantingWorkspace grantlessCommands ∧
      (grantingWorkspace.history "child" grantlessCommands).map (fun t =>
        (t.emission.key, t.admission)) =
          [(.ofCount "greet" 0, .inert), (.ofCount "size" 0, .record)] ∧
      childFlags (grantingWorkspace.afterAll grantingCommands) =
        some [(.ofCount "greet" 0, true), (.ofCount "size" 0, true)] ∧
      childFlags (grantingWorkspace.afterAll grantlessCommands) =
        some [(.ofCount "greet" 0, false), (.ofCount "size" 0, false)] := by
  have reachable : grantingWorkspace.Reachable := Reachable.empty.afterAll _
  have evaluated : (grantingWorkspace.sessions.get? "child").isSome = true ∧
      (grantingWorkspace.history "child" grantingCommands).map (fun t =>
        (t.emission.key, t.admission)) =
          [(.ofCount "greet" 0, .inert), (.ofCount "size" 0, .record)] ∧
      childFlags (grantingWorkspace.afterAll grantingCommands) =
        some [(.ofCount "greet" 0, true), (.ofCount "size" 0, true)] ∧
      childFlags (grantingWorkspace.afterAll grantlessCommands) =
        some [(.ofCount "greet" 0, false), (.ofCount "size" 0, false)] := by
    cbv
  obtain ⟨opened, treated, granted, ungranted⟩ := evaluated
  obtain ⟨s, session⟩ := Option.isSome_iff_exists.1 opened
  have alike : Alike "child" grantingWorkspace grantingCommands grantingWorkspace grantlessCommands :=
    reachable.thinned session (.grant (.runDefine (.runDefine (.keep rfl rfl .nil))))
  exact ⟨alike, by rw [alike.history, treated], granted, ungranted⟩

end Workspace

end Heredity
