import Heredity.Proofs.Interruption
import Heredity.Proofs.Precedence

/-!
# Which routines descendants may replace

Every record says whether descendants may replace the routine.  The flag is written in several
places: it is inherited, a declaration that is recorded takes it back, and a grant gives it.  This
file says what it is at any time, from the log of what the session has done.

* `Deed` — what bears on the records of a session: a variant of a declaration that was treated, a
  grant, a withheld key.
* `Deed.Permits` — a routine is permitted by what was done: it was granted after it was last
  declared, or it is an inherited one that was permitted or has been granted.
* `Moves.recordAt` — what one event does to the record at a key.
* `Trace.permitted` — the flags follow the deeds along any events.
* `Session.statementDeeds`, `Opening.deeds`, `Workspace.deeds` — what statements, the opening of a
  unit, and commands do.
* `Reachable.permitted_iff` — the law for every session, and what does not touch a flag.

**A grant is in the log when it was executed.**  A grant at a key that is not recorded, and one
after the session was closed, fail and leave nothing in the log.  The grants that an overridable
declaration brings with it never fail, and they are for the variants that were recorded only.
-/

namespace Heredity

open Step (exec Logs logEach historyEach)

/-- What bears on the records of a session. -/
inductive Deed where
  /-- A variant of a declaration was treated. -/
  | treated (t : Treatment)
  /-- A recorded routine was granted. -/
  | granted (key : Key)
  /-- A key was withheld. -/
  | withheld (key : Key)

namespace Deed

/-- The variant that was treated, if it was one. -/
def treatment? : Deed → Option Treatment
  | .treated t => some t
  | _ => none

/-- Whether a declaration was recorded at a key. -/
def records (key : Key) : Deed → Bool
  | .treated t => t.emission.key == key && t.admission.isRecorded
  | _ => false

/-- Whether the routine at a key was granted. -/
def grants (key : Key) : Deed → Bool
  | .granted key' => key' == key
  | _ => false

/-- Whether a key was withheld. -/
def withholds (key : Key) : Deed → Bool
  | .withheld key' => key' == key
  | _ => false

/-- Whether a deed bears on the record at a key. -/
def touches (key : Key) (deed : Deed) : Bool :=
  deed.records key || deed.grants key || deed.withholds key

/-- A routine was granted after a declaration was last recorded at its key. -/
def GrantedSince (key : Key) (deeds : List Deed) : Prop :=
  ∃ before last after, deeds = before ++ last :: after ∧ last.records key = true ∧
    (∀ deed ∈ after, deed.records key = false) ∧ ∃ deed ∈ after, deed.grants key = true

/-- Descendants may replace a routine: it was granted after it was last declared, or it has not been
declared, and was inherited with permission or has been granted. -/
def Permits (key : Key) (inherited : Prop) (deeds : List Deed) : Prop :=
  GrantedSince key deeds ∨
    ((∀ deed ∈ deeds, deed.records key = false) ∧
      (inherited ∨ ∃ deed ∈ deeds, deed.grants key = true))

variable {key : Key} {inherited : Prop} {deeds : List Deed} {deed : Deed}

theorem records_of_grants (grants : deed.grants key = true) : deed.records key = false := by
  cases deed with
  | granted => rfl
  | treated | withheld => cases grants

theorem records_of_untouched (untouched : deed.touches key = false) :
    deed.records key = false ∧ deed.grants key = false := by
  rw [touches, Bool.or_eq_false_iff, Bool.or_eq_false_iff] at untouched
  exact untouched.1

/-- If a declaration was recorded at all, one of them was the last. -/
theorem exists_last (some : ¬ ∀ deed ∈ deeds, deed.records key = false) :
    ∃ before last after, deeds = before ++ last :: after ∧ last.records key = true ∧
      ∀ deed ∈ after, deed.records key = false := by
  induction deeds with
  | nil => exact absurd (List.forall_mem_nil _) some
  | cons deed deeds ih =>
    by_cases none : ∀ later ∈ deeds, later.records key = false
    · refine ⟨[], deed, deeds, rfl, ?_, none⟩
      rw [← Bool.not_eq_false]
      exact fun silent => some (List.forall_mem_cons.2 ⟨silent, none⟩)
    · obtain ⟨before, last, after, rfl, recorded, silent⟩ := ih none
      exact ⟨deed :: before, last, after, rfl, recorded, silent⟩

/-- Where a log that goes on is split, its last deed comes after the place, or stands there. -/
theorem split_of_append {before after : List Deed} {last : Deed}
    (split : deeds ++ [deed] = before ++ last :: after) :
    after = [] ∨ ∃ after', after = after' ++ [deed] ∧ deeds = before ++ last :: after' := by
  obtain rfl | ⟨after', deed', rfl⟩ := after.eq_nil_or_concat
  · exact .inl rfl
  · rw [List.concat_eq_append, ← List.cons_append, ← List.append_assoc] at split
    obtain ⟨rfl, same⟩ := List.append_inj' split rfl
    obtain rfl := List.singleton_inj.1 same
    exact .inr ⟨after', List.concat_eq_append, rfl⟩

/-- Without declarations and grants, what is inherited counts. -/
theorem permits_nil : Permits key inherited [] ↔ inherited := by
  constructor
  · rintro (⟨before, last, after, nil, -⟩ | ⟨-, permitted | ⟨deed, member, -⟩⟩)
    · exact absurd nil.symm (by simp)
    · exact permitted
    · cases member
  · exact fun permitted => .inr ⟨List.forall_mem_nil _, .inl permitted⟩

/-- A declaration that is recorded takes the permission back. -/
theorem not_permits_of_records (recorded : deed.records key = true) :
    ¬ Permits key inherited (deeds ++ [deed]) := by
  rintro (⟨before, last, after, split, -, silent, grant, member, -⟩ | ⟨silent, -⟩)
  · -- The last deed is one of those after the last declaration.
    obtain rfl | ⟨after, rfl, -⟩ := split_of_append split
    · cases member
    · exact Bool.false_ne_true ((silent deed (by simp)).symm.trans recorded)
  · exact Bool.false_ne_true ((silent deed (by simp)).symm.trans recorded)

/-- A grant gives permission. -/
theorem permits_of_grants (granted : deed.grants key = true) :
    Permits key inherited (deeds ++ [deed]) := by
  have silent := records_of_grants granted
  by_cases none : ∀ deed ∈ deeds, deed.records key = false
  · refine .inr ⟨List.forall_mem_append.2 ⟨none, List.forall_mem_singleton.2 silent⟩, .inr ?_⟩
    exact ⟨deed, by simp, granted⟩
  · obtain ⟨before, last, after, rfl, recorded, later⟩ := exists_last none
    refine .inl ⟨before, last, after ++ [deed], by simp, recorded, ?_, deed, by simp, granted⟩
    exact List.forall_mem_append.2 ⟨later, List.forall_mem_singleton.2 silent⟩

/-- Nothing else counts. -/
theorem permits_of_neither (records : deed.records key = false) (grants : deed.grants key = false) :
    Permits key inherited (deeds ++ [deed]) ↔ Permits key inherited deeds := by
  have same : (∃ d ∈ deeds ++ [deed], d.grants key = true) ↔ ∃ d ∈ deeds, d.grants key = true := by
    simp [or_and_right, exists_or, grants]
  refine or_congr ⟨?_, ?_⟩ (and_congr ?_ (or_congr_right same))
  · rintro ⟨before, last, after, split, recorded, silent, grant, member, granted⟩
    obtain rfl | ⟨after, rfl, rfl⟩ := split_of_append split
    · cases member
    · rw [List.forall_mem_append] at silent
      refine ⟨before, last, after, rfl, recorded, silent.1, grant, ?_, granted⟩
      refine (List.mem_append.1 member).resolve_right fun last => ?_
      cases List.mem_singleton.1 last
      exact Bool.false_ne_true (grants.symm.trans granted)
  · rintro ⟨before, last, after, rfl, recorded, silent, grant, member, granted⟩
    refine ⟨before, last, after ++ [deed], by simp, recorded, ?_, grant,
      List.mem_append_left _ member, granted⟩
    exact List.forall_mem_append.2 ⟨silent, List.forall_mem_singleton.2 records⟩
  · rw [List.forall_mem_append, List.forall_mem_singleton, and_iff_left records]

end Deed

/-! ## What events do to a record -/

/-- What an event does to the records. -/
def Event.deed? : Event → Option Deed
  | .declare e units admission => some (.treated ⟨e, units, admission⟩)
  | .grant key => some (.granted key)
  | .withhold key => some (.withheld key)
  | _ => none

/-- Deeds are read off every event for itself. -/
def Deed.reading : Reading Deed := .ofEvent Event.deed?

/-- **One event and one key.**  It leaves the record there as it is, or puts a new record there that
descendants may not replace, or permits them to, or removes the record. -/
theorem Moves.recordAt {w w' : Writing} {event : Event} (move : Moves w event w') (key : Key) :
    ((∀ deed, event.deed? = some deed → deed.touches key = false) ∧
        w'.draft.routines.get? key = w.draft.routines.get? key) ∨
      (∃ deed r, event.deed? = some deed ∧ deed.records key = true ∧
        w'.draft.routines.get? key = some r ∧ r.permitted = false) ∨
      (∃ deed r, event.deed? = some deed ∧ deed.grants key = true ∧
        w'.draft.routines.get? key = some r ∧ r.permitted = true) ∨
      (∃ deed, event.deed? = some deed ∧ deed.withholds key = true ∧
        w'.draft.routines.get? key = none) := by
  have unrecorded : ∀ {t : Treatment}, t.admission.isRecorded = false →
      ∀ deed, some (Deed.treated t) = some deed → deed.touches key = false := by
    rintro t none _ ⟨⟩
    simp [Deed.touches, Deed.records, Deed.grants, Deed.withholds, none]
  have idle : ∀ deed : Deed, none = some deed → deed.touches key = false := nofun
  cases move with
  | declarePrivate | declareLocal | declareInert => exact .inl ⟨unrecorded rfl, rfl⟩
  | @declareRecorded e units admission _ _ _ _ _ admitted =>
    rw [Writing.draft_hold, Writing.draft_withDraft, Draft.recorded, Table.get?_insert]
    by_cases agrees : (e.key == key) = true
    · rw [if_pos agrees]
      refine .inr (.inl ⟨_, e.record, rfl, ?_, rfl, rfl⟩)
      exact Bool.and_eq_true _ _ ▸ ⟨agrees, admitted.isRecorded⟩
    · rw [if_neg agrees]
      refine .inl ⟨?_, rfl⟩
      rintro _ ⟨⟩
      simp [Deed.touches, Deed.records, Deed.grants, Deed.withholds, agrees]
  | @grant key' r _ recorded =>
    rw [Writing.draft_withDraft, Table.get?_insert]
    by_cases agrees : (key' == key) = true
    · rw [if_pos agrees]
      exact .inr (.inr (.inl ⟨_, _, rfl, agrees, rfl, rfl⟩))
    · rw [if_neg agrees]
      refine .inl ⟨?_, rfl⟩
      rintro _ ⟨⟩
      simp [Deed.touches, Deed.records, Deed.grants, Deed.withholds, agrees]
  | @withhold key' =>
    rw [Writing.draft_withDraft, Table.get?_erase]
    by_cases agrees : (key' == key) = true
    · rw [if_pos agrees]
      exact .inr (.inr (.inr ⟨_, rfl, agrees, rfl⟩))
    · rw [if_neg agrees]
      refine .inl ⟨?_, rfl⟩
      rintro _ ⟨⟩
      simp [Deed.touches, Deed.records, Deed.grants, Deed.withholds, agrees]
  | importKey | setHooks | require | skip | inherit | close | complete => exact .inl ⟨idle, rfl⟩

/-- The flags of a unit are what its deeds and the permissions that it inherited make them. -/
def Writing.Permitted (inherited : Key → Prop) (deeds : List Deed) (w : Writing) : Prop :=
  ∀ key r, w.draft.routines.get? key = some r →
    (r.permitted = true ↔ Deed.Permits key (inherited key) deeds)

/-- **One event.**  The flags follow what it does. -/
theorem Moves.permitted {inherited : Key → Prop} {deeds : List Deed} {w w' : Writing}
    {event : Event} (move : Moves w event w') (h : w.Permitted inherited deeds) :
    w'.Permitted inherited (deeds ++ event.deed?.toList) := by
  intro key r recorded
  rcases move.recordAt key with ⟨untouched, same⟩ | ⟨deed, r', isDeed, records, now, locked⟩ |
    ⟨deed, r', isDeed, grants, now, unlocked⟩ | ⟨-, -, -, now⟩
  · rw [same] at recorded
    rw [h key r recorded]
    cases isDeed : event.deed? with
    | none => rw [Option.toList, List.append_nil]
    | some deed =>
      obtain ⟨records, grants⟩ := Deed.records_of_untouched (untouched deed isDeed)
      exact (Deed.permits_of_neither records grants).symm
  · cases recorded.symm.trans now
    rw [isDeed, locked]
    exact iff_of_false Bool.false_ne_true (Deed.not_permits_of_records records)
  · cases recorded.symm.trans now
    rw [isDeed]
    exact iff_of_true unlocked (Deed.permits_of_grants grants)
  · cases recorded.symm.trans now

/-- An event that does not touch a record leaves it as it is. -/
theorem Moves.get?_of_untouched {w w' : Writing} {event : Event} {key : Key}
    (move : Moves w event w')
    (untouched : ∀ deed, event.deed? = some deed → deed.touches key = false) :
    w'.draft.routines.get? key = w.draft.routines.get? key := by
  rcases move.recordAt key with ⟨-, same⟩ | ⟨deed, _, isDeed, touches, -⟩ |
    ⟨deed, _, isDeed, touches, -⟩ | ⟨deed, isDeed, touches, -⟩
  · exact same
  all_goals
    have untouched := untouched deed isDeed
    simp [Deed.touches, touches] at untouched

namespace Trace

variable {w w' : Writing} {events : List Event} {deeds later : List Deed}

/-- **Events one after the other.**  The flags follow all that they do. -/
theorem permitted {inherited : Key → Prop} (trace : Trace w events w')
    (read : Deed.reading.reads events later) (h : w.Permitted inherited deeds) :
    w'.Permitted inherited (deeds ++ later) := by
  obtain rfl := read
  exact trace.logged (I := fun past v => v.Permitted inherited (deeds ++ past))
    (fun _ move permitted => by
      rw [← List.append_assoc]
      exact move.permitted permitted) (by rwa [List.append_nil])

/-- A record that nothing touches stays as it is. -/
theorem get?_of_untouched {key : Key} (trace : Trace w events w')
    (read : Deed.reading.reads events deeds)
    (untouched : ∀ deed ∈ deeds, deed.touches key = false) :
    w'.draft.routines.get? key = w.draft.routines.get? key := by
  obtain rfl := read
  refine trace.invariant (I := fun v => v.draft.routines.get? key = w.draft.routines.get? key)
    (fun v event v' member move start => (move.get?_of_untouched fun deed isDeed => ?_).trans start)
    rfl
  exact untouched deed (List.mem_filterMap.2 ⟨event, member, isDeed⟩)

end Trace

/-! ## What operations do -/

namespace Session

/-- The deeds of a declaration: its variants are treated. -/
def defineDeeds (store : Store) (declaration : Declaration) (spliced : Bool) (b : Bench) :
    List Deed :=
  (defineHistory store declaration spliced b).map .treated

/-- The deeds of a statement.  An overridable declaration grants the variants that were recorded,
when all of them have been treated; a grant and a withheld key count if they were not refused. -/
def statementDeeds (store : Store) (spliced : Bool) : Statement → Bench → List Deed
  | .define declaration, b =>
    defineDeeds store declaration spliced b ++
      if declaration.overridable && (exec (define store declaration spliced) b).1.isOk then
        ((defineHistory store declaration spliced b).filter (·.admission.isRecorded)).map
          fun t => .granted t.emission.key
      else []
  | .grant key, b => if (exec (grant key) b).1.isOk then [.granted key] else []
  | .withhold key, b => if (exec (withhold key) b).1.isOk then [.withheld key] else []

/-- The deeds of hooks of the base. -/
def spliceDeeds (store : Store) (hooks : List Hook) (b : Bench) : List Deed :=
  logEach (fun hook : Hook => hook.forM (run store true))
    (fun hook => logEach (run store true) (statementDeeds store true) hook) hooks b

theorem declareVariant_deeds (declaration : Declaration) (units : NameSet) (spliced : Bool)
    {v : Tree.Variant} (proper : v.Proper) :
    Logs Deed.reading (declareVariant declaration units spliced v)
      fun b => (variantHistory declaration units spliced v b).map .treated := by
  intro b loaded
  dsimp only [variantHistory]
  rcases declareVariant_runs loaded declaration units spliced proper with
    ⟨error, failed, -⟩ | ⟨admission, b', done, runs⟩
  · rw [failed]
    exact ⟨[], .refl loaded, rfl⟩
  · rw [done]
    exact ⟨_, runs, rfl⟩

/-- **Declarations.** -/
theorem define_deeds (store : Store) (declaration : Declaration) (spliced : Bool) :
    Logs Deed.reading (define store declaration spliced)
      (defineDeeds store declaration spliced) := by
  have each := define_logs (A := Deed.reading) store declaration spliced
    (fun proper => declareVariant_deeds declaration _ spliced proper)
    fun {units variants admissions b b' events} _ _ read => by
      rw [← read]
      exact List.filterMap_append.trans (List.append_nil _)
  rw [declarationLog_map, ← defineHistory_eq] at each
  exact each

/-- What is written in the draft, and read off one event, is in the log if it was not refused. -/
theorem updateDraft_deeds {f : Draft → Except Error Draft} {event : Event} {deed : Deed}
    (isDeed : event.deed? = some deed)
    (move : ∀ w : Writing, ∀ d, f w.draft = .ok d → Moves w event (w.withDraft d)) :
    Logs Deed.reading (Bench.updateDraft f)
      fun b => if (exec (Bench.updateDraft f) b).1.isOk then [deed] else [] := by
  intro b loaded
  dsimp only
  rcases Bench.exec_updateDraft_runs loaded fun w _ => move w with ⟨error, failed⟩ | ⟨b', done, runs⟩
  · rw [failed]
    exact ⟨[], .refl loaded, rfl⟩
  · rw [done]
    exact ⟨_, runs, List.filterMap_cons_some isDeed⟩

theorem grant_runs {key : Key} {b b' : Bench} (loaded : b.Loaded)
    (done : exec (grant key) b = (.ok ⟨⟩, b')) : b.Runs [.grant key] b' := by
  rcases Bench.exec_updateDraft_runs (f := (Ledger.grant · key)) loaded fun w _ => moves_grant w with
    ⟨error, failed⟩ | ⟨b₁, granted, runs⟩
  · cases failed.symm.trans done
  · cases granted.symm.trans done
    exact runs

/-- What is granted at once are the variants of a history that were recorded. -/
theorem grantRecorded_runs {name : String} {history : List Treatment} {arity : Nat}
    {b b' : Bench} (loaded : b.Loaded)
    (keys : history.map (fun t => t.emission.key) =
      (List.range' arity history.length).map (Key.ofCount name))
    (done : exec (grantRecorded name arity (history.map Treatment.admission)) b =
      (.ok ⟨⟩, b')) :
    b.Runs ((history.filter (·.admission.isRecorded)).map fun t => .grant t.emission.key) b' := by
  induction history generalizing arity b with
  | nil =>
    cases done
    exact .refl loaded
  | cons t history ih =>
    obtain ⟨isKey, keys⟩ := List.cons.inj keys
    rw [List.map_cons, grantRecorded] at done
    cases recorded : t.admission.isRecorded with
    | false =>
      rw [recorded] at done
      simpa [List.filter_cons, recorded] using ih loaded keys done
    | true =>
      rw [recorded, if_pos rfl] at done
      obtain ⟨_, b₁, granted, done⟩ := Step.exists_of_exec_bind_eq_ok done
      have runs := grant_runs loaded granted
      rw [← isKey] at runs
      simpa [List.filter_cons, recorded] using runs.trans (ih runs.loaded keys done)

/-- **The history of variants that have all been treated:** one treatment for each of them. -/
theorem historyEach_of_ok {declaration : Declaration} {units : NameSet} {spliced : Bool}
    {variants : List Tree.Variant} {b b' : Bench} {admissions : List Admission}
    (done : exec (variants.mapM (declareVariant declaration units spliced)) b =
      (.ok admissions, b')) :
    (historyEach (declareVariant declaration units spliced)
        (variantHistory declaration units spliced) variants b).map Treatment.admission =
      admissions ∧
    (historyEach (declareVariant declaration units spliced)
        (variantHistory declaration units spliced) variants b).map Treatment.emission =
      variants.map (variantEmission declaration) := by
  induction variants generalizing b admissions with
  | nil =>
    cases done
    exact ⟨rfl, rfl⟩
  | cons v variants ih =>
    rw [List.mapM_cons] at done
    obtain ⟨admission, b₁, first, done⟩ := Step.exists_of_exec_bind_eq_ok done
    obtain ⟨later, b₂, rest, done⟩ := Step.exists_of_exec_bind_eq_ok done
    cases done
    obtain ⟨treated, emitted⟩ := ih rest
    unfold historyEach variantHistory
    rw [first]
    exact ⟨congrArg (admission :: ·) treated, congrArg (variantEmission declaration v :: ·) emitted⟩

/-- The history of variants treats them in order, each of them once. -/
theorem historyEach_sublist (declaration : Declaration) (units : NameSet) (spliced : Bool)
    (variants : List Tree.Variant) (b : Bench) :
    ((historyEach (declareVariant declaration units spliced)
      (variantHistory declaration units spliced) variants b).map Treatment.emission).Sublist
        (variants.map (variantEmission declaration)) := by
  induction variants generalizing b with
  | nil => exact .slnil
  | cons v variants ih =>
    unfold historyEach variantHistory
    cases exec (declareVariant declaration units spliced v) b with
    | mk result b₁ =>
      cases result with
      | error error => exact List.nil_sublist _
      | ok admission => exact (ih b₁).cons_cons _

/-- The keys that a declaration treats are different ones with its name. -/
theorem keys_defineHistory (store : Store) (declaration : Declaration) (spliced : Bool)
    (b : Bench) :
    ((defineHistory store declaration spliced b).map fun t => t.emission.key).Nodup ∧
      ∀ t ∈ defineHistory store declaration spliced b,
        ∃ n, t.emission.key = Key.ofCount declaration.name n := by
  unfold defineHistory
  split
  swap
  · exact ⟨List.nodup_nil, List.forall_mem_nil _⟩
  next body guards units prepared =>
  have sublist := (historyEach_sublist declaration units spliced (Tree.expandDefaults
    declaration.name declaration.params guards body b.session.config.stem) b).map Emission.key
  rw [List.map_map, List.map_map] at sublist
  have distinct : ((Tree.expandDefaults declaration.name declaration.params guards body
      b.session.config.stem).map (Key.ofCount declaration.name ∘ Tree.Variant.arity)).Nodup := by
    rw [← List.map_map]
    exact Tree.nodup_arities.map fun n m same => Int.ofNat.inj (congrArg (·.arity.toInt) same)
  refine ⟨sublist.nodup distinct, fun t member => ?_⟩
  obtain ⟨v, -, same⟩ := List.mem_map.1 (sublist.subset (List.mem_map_of_mem member))
  exact ⟨v.arity, same.symm⟩

/-- A declaration does not treat a key twice. -/
theorem eq_of_mem_defineHistory {store : Store} {declaration : Declaration} {spliced : Bool}
    {b : Bench} {t t' : Treatment} (member : t ∈ defineHistory store declaration spliced b)
    (member' : t' ∈ defineHistory store declaration spliced b)
    (agrees : (t'.emission.key == t.emission.key) = true) : t' = t := by
  obtain ⟨distinct, named⟩ := keys_defineHistory store declaration spliced b
  refine List.inj_on_of_nodup_map distinct member' member ?_
  obtain ⟨n, isKey⟩ := named t member
  obtain ⟨n', isKey'⟩ := named t' member'
  rw [isKey, isKey', Key.beq_iff] at agrees
  rw [isKey, isKey', Int.ofNat.inj agrees.2]

/-- **The history of a declaration that succeeds** treats every arity, the least first, and in the
way that was answered. -/
theorem defineHistory_of_ok {store : Store} {declaration : Declaration} {spliced : Bool}
    {b b' : Bench} {admissions : List Admission}
    (done : exec (define store declaration spliced) b = (.ok admissions, b')) :
    (defineHistory store declaration spliced b).map Treatment.admission = admissions ∧
      (defineHistory store declaration spliced b).map (fun t => t.emission.key) =
        (List.range' (Tree.leastArity declaration.params)
          (defineHistory store declaration spliced b).length).map
            (Key.ofCount declaration.name) := by
  unfold define at done
  rw [Step.exec_get_bind] at done
  unfold defineHistory
  cases prepared : prepareAll store b.session.draft declaration with
  | error error =>
    rw [prepared] at done
    cases done
  | ok result =>
    obtain ⟨body, guards, units⟩ := result
    rw [prepared, Step.exec_lift_ok_bind] at done
    obtain ⟨admissions', b₁, treated, done⟩ := Step.exists_of_exec_bind_eq_ok done
    obtain ⟨isAdmission, isEmission⟩ := historyEach_of_ok treated
    have answered : admissions' = admissions := by
      dsimp only at done
      split at done
      · obtain ⟨_, b₂, -, done⟩ := Step.exists_of_exec_bind_eq_ok done
        cases done
        rfl
      · cases done
        rfl
    have length := congrArg List.length isEmission
    rw [List.length_map, List.length_map] at length
    refine ⟨isAdmission.trans answered, ?_⟩
    dsimp only
    rw [length, ← Function.comp_def Emission.key, ← List.map_map, isEmission, List.map_map,
      ← Tree.arities_expandDefaults, List.map_map]
    rfl

/-- The deeds of an overridable declaration that succeeds. -/
theorem overridable_runs {store : Store} {declaration : Declaration} {spliced : Bool}
    {b b' : Bench} {admissions : List Admission} (loaded : b.Loaded)
    (done : exec (define store declaration spliced) b = (.ok admissions, b')) :
    ∃ b'' events, exec (grantRecorded declaration.name (Tree.leastArity declaration.params)
        admissions) b' = (.ok ⟨⟩, b'') ∧ b'.Runs events b'' ∧
      Deed.reading.reads events
        (((defineHistory store declaration spliced b).filter (·.admission.isRecorded)).map
          fun t => .granted t.emission.key) := by
  obtain ⟨b'', granted⟩ := exec_grantRecorded (grantable_of_define loaded done)
  obtain ⟨isAdmission, isKey⟩ := defineHistory_of_ok done
  obtain ⟨events, runs, -⟩ := define_deeds store declaration spliced b loaded
  rw [done] at runs
  refine ⟨b'', _, granted, grantRecorded_runs runs.loaded isKey (isAdmission ▸ granted), ?_⟩
  show List.filterMap Event.deed? _ = _
  rw [List.filterMap_map]
  exact congrFun (List.filterMap_eq_map (f := fun t : Treatment => Deed.granted t.emission.key)) _

/-- **Statements.** -/
theorem run_deeds (store : Store) (spliced : Bool) (statement : Statement) :
    Logs Deed.reading (run store spliced statement) (statementDeeds store spliced statement) := by
  cases statement with
  | grant key => exact updateDraft_deeds rfl moves_grant
  | withhold key => exact updateDraft_deeds rfl moves_withhold
  | define declaration =>
    intro b loaded
    obtain ⟨events, runs, read⟩ := define_deeds store declaration spliced b loaded
    simp only [run, statementDeeds, Step.exec_bind]
    cases defined : exec (define store declaration spliced) b with
    | mk result b₁ =>
      rw [defined] at runs
      cases result with
      | error error => exact ⟨events, runs, by simpa [Except.isOk, Except.toBool] using read⟩
      | ok admissions =>
        cases overridable : declaration.overridable with
        | false => exact ⟨events, runs, by simpa using read⟩
        | true =>
          obtain ⟨b₂, events', granted, runs', read'⟩ := overridable_runs loaded defined
          simp only [granted, if_true]
          exact ⟨events ++ events', runs.trans runs', Deed.reading.append read read'⟩

/-- **Hooks.** -/
theorem splice_deeds (store : Store) (hooks : List Hook) :
    Logs Deed.reading (splice store hooks) (spliceDeeds store hooks) :=
  .forM fun _ _ => .forM fun statement _ => run_deeds store true statement

/-- A variant that was recorded has another key than one that was not. -/
theorem apart_of_unrecorded {store : Store} {declaration : Declaration} {spliced : Bool} {b : Bench}
    {t t' : Treatment} (member : t ∈ defineHistory store declaration spliced b)
    (unrecorded : t.admission.isRecorded = false)
    (member' : t' ∈ defineHistory store declaration spliced b)
    (recorded : t'.admission.isRecorded = true) : (t'.emission.key == t.emission.key) = false := by
  rw [Bool.eq_false_iff]
  intro agrees
  obtain rfl := eq_of_mem_defineHistory member member' agrees
  exact Bool.false_ne_true (unrecorded.symm.trans recorded)

/-- What a declaration treats without recording it is not touched by the other variants. -/
theorem untouched_of_define {store : Store} {declaration : Declaration} {spliced : Bool} {b : Bench}
    {t : Treatment} (treated : t ∈ defineHistory store declaration spliced b)
    (unrecorded : t.admission.isRecorded = false) :
    ∀ deed ∈ defineDeeds store declaration spliced b, deed.touches t.emission.key = false := by
  intro deed member
  obtain ⟨t', member', rfl⟩ := List.mem_map.1 member
  cases recorded : t'.admission.isRecorded with
  | false => simp [Deed.touches, Deed.records, Deed.grants, Deed.withholds, recorded]
  | true =>
    have other := apart_of_unrecorded treated unrecorded member' recorded
    simp [Deed.touches, Deed.records, Deed.grants, Deed.withholds, other]

theorem mem_defineDeeds {store : Store} {declaration : Declaration} {spliced : Bool} {b : Bench}
    {t : Treatment} :
    .treated t ∈ defineDeeds store declaration spliced b ↔
      t ∈ defineHistory store declaration spliced b := by
  simp [defineDeeds]

/-- **What is declared without being recorded** is not touched by anything that the statement does,
the grants of an overridable declaration included. -/
theorem untouched_of_unrecorded {store : Store} {spliced : Bool} {statement : Statement} {b : Bench}
    {t : Treatment} (treated : .treated t ∈ statementDeeds store spliced statement b)
    (unrecorded : t.admission.isRecorded = false) :
    ∀ deed ∈ statementDeeds store spliced statement b, deed.touches t.emission.key = false := by
  cases statement with
  | grant key | withhold key =>
    dsimp only [statementDeeds] at treated
    split at treated <;> simp at treated
  | define declaration =>
    have isTreated : t ∈ defineHistory store declaration spliced b := by
      rcases List.mem_append.1 treated with member | member
      · exact mem_defineDeeds.1 member
      · split at member <;> simp at member
    refine List.forall_mem_append.2 ⟨untouched_of_define isTreated unrecorded, fun deed member => ?_⟩
    split at member
    · obtain ⟨t', granted, rfl⟩ := List.mem_map.1 member
      obtain ⟨member', recorded⟩ := List.mem_filter.1 granted
      have other := apart_of_unrecorded isTreated unrecorded member' recorded
      simp [Deed.touches, Deed.records, Deed.grants, Deed.withholds, other]
    · cases member

end Session

/-- The deeds of a command for the session of its unit. -/
def Command.deeds (store : Store) : Command → Bench → List Deed
  | .define _ declaration => Session.defineDeeds store declaration false
  | .grant _ key => Session.statementDeeds store false (.grant key)
  | .withhold _ key => Session.statementDeeds store false (.withhold key)
  | .run _ statement spliced => Session.statementDeeds store spliced statement
  | _ => fun _ => []

/-- What a command declares without recording it is not touched by anything that it does. -/
theorem Command.untouched_of_unrecorded {store : Store} {command : Command} {b : Bench}
    {t : Treatment} (treated : .treated t ∈ command.deeds store b)
    (unrecorded : t.admission.isRecorded = false) :
    ∀ deed ∈ command.deeds store b, deed.touches t.emission.key = false := by
  cases command with
  | define => exact Session.untouched_of_define (Session.mem_defineDeeds.1 treated) unrecorded
  | grant | withhold | run =>
    simp only [deeds] at treated ⊢
    exact Session.untouched_of_unrecorded treated unrecorded
  | openRoot | openExtension | importRoutines | setHooks | finish => cases treated

/-- The deeds of commands are true. -/
theorem Command.keeps_deeds : Command.Keeps Deed.reading Command.deeds where
  works {store command m} isWork := by
    cases command with
    | openRoot | openExtension | finish => cases isWork
    | define unit declaration =>
      cases isWork
      exact (Session.define_deeds store declaration false).bind_silent fun _ => .pure _
    | grant unit key =>
      cases isWork
      exact (Session.run_deeds store false (.grant key)).bind_silent fun _ => .pure _
    | withhold unit key =>
      cases isWork
      exact (Session.run_deeds store false (.withhold key)).bind_silent fun _ => .pure _
    | importRoutines unit source keys =>
      cases isWork
      refine Logs.bind_silent (.of_performs (Session.importRoutines_performs store source keys)
        fun events all => List.filterMap_eq_nil_iff.2 fun event member => ?_) fun _ => .pure _
      obtain ⟨_, _, rfl⟩ := all event member
      rfl
    | setHooks unit pre post =>
      cases isWork
      refine Logs.bind_silent (.of_performs (Session.setHooks_performs pre post)
        fun events all => List.filterMap_eq_nil_iff.2 fun event member => ?_) fun _ => .pure _
      obtain rfl := all event member
      rfl
    | run unit statement spliced =>
      cases isWork
      exact (Session.run_deeds store spliced statement).bind_silent fun _ => .pure _
  idle {store command} silent b := by cases command <;> first | rfl | cases silent
  closing := rfl
  completing := rfl

/-! ## The opening of a unit -/

/-- The deeds of the hooks that are executed when a unit is opened. -/
def Opening.deeds (o : Opening) : List Deed :=
  Session.spliceDeeds o.store o.emissions.preHooks o.bench ++
    Session.spliceDeeds o.store o.emissions.postHooks o.settled

namespace Workspace

variable {w : Workspace}

/-- The deeds of commands for a unit. -/
def deeds (w : Workspace) (unit : String) (commands : List Command) : List Deed :=
  w.logAll Command.deeds unit commands

/-- The base that a command opens an extension of passes a routine on with permission. -/
def InheritsPermission (w : Workspace) (command : Command) (key : Key) : Prop :=
  ∃ config unit base fields registry r, command = .openExtension config unit base fields ∧
    w.store.get? base = some registry ∧ registry.routines.get? key = some r ∧ r.permitted = true

/-- **A unit that has been opened** has the flags that the hooks of its base make of those that it
inherits. -/
theorem Opened.permitted {command : Command} {o : Opening} {s : Session} {image : Image}
    (opened : w.Opened command o s image) :
    Writing.Permitted (w.InheritsPermission command) o.deeds ⟨s, image⟩ := by
  cases opened with
  | root => exact fun key r recorded => nomatch recorded
  | @extension config unit base fields registry resolution b _ published resolved done held =>
    have shows' := w.toSite.openingBench_shows config resolution.draft
    obtain ⟨pre, post, ofPre, ofPost, runs₁, runs₂, runs₃⟩ :=
      Opening.runs_of_logs (A := Deed.reading)
        (o := ⟨w.store, w.toSite.openingBench config resolution.draft, resolution.emissions⟩)
        shows'.loaded (Session.splice_deeds w.store) done
    obtain ⟨w₁, w₂, shows₁, shows₂, trace, -⟩ := runs₁.trans (runs₂.trans runs₃)
    obtain rfl := shows'.unique shows₁
    have written : b.Shows ⟨b.session, image⟩ := ⟨rfl, held⟩
    obtain rfl := shows₂.unique written
    have silent : Deed.reading.reads (resolution.emissions.routines.map .inherit ++
        [.require resolution.emissions.requires]) [] := by
      show List.filterMap _ _ = _
      simp [List.filterMap_append, List.filterMap_map, Event.deed?, Function.comp_def]
    have start : (Writing.opened config resolution.draft).Permitted
        (w.InheritsPermission (.openExtension config unit base fields)) [] := by
      intro key r recorded
      -- What is inherited keeps its flag.
      obtain ⟨r₀, needs, original, -, becomes⟩ := (get?_inherited_iff resolved).1 recorded
      rw [(inheritRoutine_keeps becomes).1, Deed.permits_nil]
      constructor
      · exact fun flag =>
          ⟨config, unit, base, fields, registry, r₀, rfl, published, original, flag⟩
      · rintro ⟨_, _, _, _, registry', r', ⟨⟩, published', original', flag⟩
        cases published.symm.trans published'
        cases original.symm.trans original'
        exact flag
    have opened := trace.permitted
      (Deed.reading.append ofPre (Deed.reading.append silent ofPost)) start
    exact opened

/-- **Which routines descendants may replace.**  In every workspace that commands lead to, let a
command open a unit, a root or the extension of a published base, and let any commands follow,
failing ones included.  Descendants may replace a recorded routine if and only if it was granted
after it was last declared, or it has not been declared, and was permitted in the base or has been
granted.  What is declared without being recorded, since its key is locked or counts for the unit
alone, leaves the record at the key as it is. -/
theorem Reachable.permitted_iff (h : w.Reachable) {command : Command} {reply : Reply}
    (opens : command.isOpening = true) (ok : w.outcome command = .ok reply)
    (commands : List Command) :
    ∃ o s, w.opening? command = some o ∧
      (w.afterAll (command :: commands)).sessions.get? command.unit = some s ∧
      (∀ key r, s.draft.routines.get? key = some r →
        (r.permitted = true ↔ Deed.Permits key (w.InheritsPermission command key)
          (o.deeds ++ (w.after command).deeds command.unit commands))) ∧
      ∀ next t, .treated t ∈ (w.afterAll (command :: commands)).deeds command.unit [next] →
        t.admission.isRecorded = false →
        ∃ s', ((w.afterAll (command :: commands)).after next).sessions.get? command.unit =
            some s' ∧
          s'.draft.routines.get? t.emission.key = s.draft.routines.get? t.emission.key := by
  obtain ⟨o, s₁, image₁, isOpening, session, held, opened⟩ := opened_of_outcome opens ok
  obtain ⟨s, image, events, session', held', trace, read⟩ :=
    (h.coherent.after command).logs_afterAll Command.keeps_deeds session held commands
  refine ⟨o, s, isOpening, session', trace.permitted read opened.permitted, ?_⟩
  intro next t treated unrecorded
  obtain ⟨s', _, events', session', -, trace', read'⟩ :=
    (h.afterAll (command :: commands)).coherent.logs_after Command.keeps_deeds session' held' next
  refine ⟨s', session', trace'.get?_of_untouched read' ?_⟩
  have treated := (List.mem_append.1 treated).resolve_right nofun
  unfold logOf at treated ⊢
  split at treated
  · next same =>
    rw [if_pos same]
    split at treated
    · exact Command.untouched_of_unrecorded treated unrecorded
    · cases treated
  · cases treated

/-- The commands by which a unit is published that passes on a locked routine and one that may be
replaced; its hook declares both in every extension. -/
def permissionCommands : List Command :=
  [.openRoot {} "base" (.list []),
    .define "base" ⟨"greet", [], .literal (.text "hello"), [], false, false⟩,
    .run "base" (.define ⟨"size", [], .literal (.int 1), [], false, true⟩) false,
    .setHooks "base" none (some [
      .define ⟨"greet", [], .literal (.text "hook"), [], false, true⟩,
      .define ⟨"size", [], .literal (.int 2), [], false, false⟩]),
    .finish "base"]

/-- The key of the locked routine. -/
def greetKey : Key := .ofCount "greet" 0

/-- The key of the routine that may be replaced. -/
def sizeKey : Key := .ofCount "size" 0

/-- The command that opens the extension. -/
def permissionOpening : Command := .openExtension {} "child" "base" (.list [])

/-- A declaration of the locked routine by the extension. -/
def inertDeclaration : Command :=
  .run "child" (.define ⟨"greet", [], .literal (.text "own"), [], false, true⟩) false

/-- The extension permits what it has inherited and granted, not what its hook has declared; and a
declaration of the locked routine takes nothing back. -/
theorem permitted_iff_child :
    (afterAll ∅ permissionCommands).outcome permissionOpening = .ok .done ∧
      ∃ s s' greet size,
        ((afterAll ∅ permissionCommands).afterAll [permissionOpening,
          .grant "child" greetKey]).sessions.get? "child" = some s ∧
        s.draft.routines.get? greetKey = some greet ∧ greet.permitted = true ∧
        s.draft.routines.get? sizeKey = some size ∧ size.permitted = false ∧
        (((afterAll ∅ permissionCommands).afterAll [permissionOpening,
          .grant "child" greetKey]).after inertDeclaration).sessions.get? "child" = some s' ∧
        s'.draft.routines.get? greetKey = some greet := by
  have reachable : (afterAll ∅ permissionCommands).Reachable :=
    Reachable.empty.afterAll permissionCommands
  have evaluated : (afterAll ∅ permissionCommands).outcome permissionOpening = .ok .done ∧
      ((afterAll ∅ permissionCommands).opening? permissionOpening).map (fun o =>
        let log := o.deeds ++
          ((afterAll ∅ permissionCommands).after permissionOpening).deeds "child"
            [.grant "child" greetKey]
        (log.any (·.records greetKey), log.any (·.grants greetKey),
          log.any (·.records sizeKey), log.any (·.grants sizeKey))) =
        some (false, true, true, false) ∧
      (((afterAll ∅ permissionCommands).afterAll [permissionOpening,
        .grant "child" greetKey]).sessions.get? "child").map (fun s =>
          (s.draft.routines.contains greetKey, s.draft.routines.contains sizeKey)) =
        some (true, true) ∧
      ((((afterAll ∅ permissionCommands).afterAll [permissionOpening,
        .grant "child" greetKey]).deeds "child" [inertDeclaration]).filterMap Deed.treatment?).map
          (fun t => (t.emission.key, t.admission)) = [(greetKey, .inert)] := by
    cbv
  obtain ⟨ok, done, recorded, treated⟩ := evaluated
  obtain ⟨o, s, isOpening, session, flags, keeps⟩ :=
    Reachable.permitted_iff reachable (by decide) ok [.grant "child" greetKey]
  rw [show permissionOpening.unit = "child" from rfl] at session flags keeps
  rw [isOpening] at done
  simp only [Option.map_some, Option.some.injEq, Prod.mk.injEq, List.any_eq_false,
    List.any_eq_true, Bool.not_eq_true] at done
  obtain ⟨undeclared, granted, ⟨deed, member, declared⟩, silent⟩ := done
  rw [session, Option.map_some, Option.some.injEq, Prod.mk.injEq] at recorded
  obtain ⟨greet, isGreet⟩ := Table.contains_iff_exists_get?.1 recorded.1
  obtain ⟨size, isSize⟩ := Table.contains_iff_exists_get?.1 recorded.2
  obtain ⟨t, rest, listed, same, -⟩ := List.map_eq_cons_iff.1 treated
  obtain ⟨isKey, isInert⟩ := Prod.mk.inj same
  have isTreated : .treated t ∈ ((afterAll ∅ permissionCommands).afterAll [permissionOpening,
      .grant "child" greetKey]).deeds "child" [inertDeclaration] := by
    obtain ⟨deed', isDeed, isTreatment⟩ := List.mem_filterMap.1 (listed ▸ List.mem_cons_self)
    cases deed' with
    | granted | withheld => cases isTreatment
    | treated t' => rwa [← Option.some.inj isTreatment]
  obtain ⟨s', session', same⟩ := keeps inertDeclaration t isTreated (by rw [isInert]; rfl)
  refine ⟨ok, s, s', greet, size, session, isGreet,
    (flags _ _ isGreet).2 (.inr ⟨undeclared, .inr granted⟩), isSize, ?_, session', ?_⟩
  · rw [Bool.eq_false_iff, Ne, flags _ _ isSize]
    rintro (⟨before, last, after, split, -, -, grant, isGrant, grants⟩ | ⟨none, -⟩)
    · have isDeed : grant ∈ before ++ last :: after := by simp [isGrant]
      exact Bool.false_ne_true ((silent grant (split ▸ isDeed)).symm.trans grants)
    · exact Bool.false_ne_true ((none deed member).symm.trans declared)
  · rw [← isKey, same, isKey, isGreet]

end Workspace

end Heredity
