import Heredity.Proofs.Precedence

/-!
# The two policies

A declaration at a locked key is accepted in vain and warned about, or it is refused.  The policy
says which.  This file compares a run under the one policy with the same run under the other: up to
the first warning they do the same, and at the first warning the strict run fails.

* `Config.under`, `Session.under`, `Bench.under` — the same under a given policy.
* `Sharpens` — how the outcome under the strict policy stands to that under the mild one: both are
  the same and no warning is issued, or there is a warning and the strict outcome is the error that
  the first one is turned into.
* `Step.Policed` — a step whose outcomes stand so, from every bench.  There is one rule for each way
  of putting steps together, and one lemma for each operation.
* `Workspace.Stricter` — two workspaces that differ in the policy of one session only.
* `sharpens_of_policies` — two runs of a session from its opening on.

**What is spliced is silent.**  A statement from a hook is never warned about and never refused, so
of the two cases of `Sharpens` only the first one is left for it.  That is why opening an extension,
where hooks are executed, is the same under both policies.

**The strict run stops being of interest at its first refusal,** since the mild one has accepted
what it refuses.  So the comparison is always of what comes before, and of the operation itself.
-/

namespace Heredity

open Step (exec)

/-- The options under a policy. -/
def Config.under (p : InertPolicy) (c : Config) : Config := { c with inertPolicy := p }

/-- The ledger under a policy. -/
def Ledger.under (p : InertPolicy) (l : Ledger) : Ledger := { l with config := l.config.under p }

/-- The session under a policy. -/
def Session.under (p : InertPolicy) (s : Session) : Session := { s with ledger := s.ledger.under p }

/-- The bench under a policy. -/
def Bench.under (p : InertPolicy) (b : Bench) : Bench := { b with session := b.session.under p }

theorem Bench.exec_updateDraft_under (f : Draft → Except Error Draft) (b : Bench)
    (p : InertPolicy) :
    exec (Bench.updateDraft f) (b.under p) =
      match f b.session.draft with
      | .ok d => (.ok ⟨⟩, (b.withDraft d).under p)
      | .error e => (.error e, b.under p) :=
  Bench.exec_updateDraft f (b.under p)

theorem Bench.exec_updateProgram_under (f : Program → Except Error Program) (b : Bench)
    (p : InertPolicy) :
    exec (Bench.updateProgram f) (b.under p) =
      match f b.program with
      | .ok p' => (.ok ⟨⟩, Bench.under p { b with program := p' })
      | .error e => (.error e, b.under p) :=
  Bench.exec_updateProgram f (b.under p)

/-- A computation does not fail with the error of a declaration at a locked key. -/
abbrev NotInert {α : Type} (r : Except Error α) : Prop := Fails (·.isInert = false) r

/-- **Under either policy.**  The first outcome is one under the mild policy, the second one under
the strict policy; `past` are the warnings that have been issued before. -/
inductive Sharpens {α : Type} (spliced : Bool) (past : List Warning) :
    Except Error α × Bench → Except Error α × Bench → Prop where
  /-- Both are the same.  No warning is issued, and no declaration is refused for being inert. -/
  | same {result : Except Error α} {b : Bench} (unwarned : b.warnings = past)
      (notInert : NotInert result) :
      Sharpens spliced past (result, b.under .warn) (result, b.under .refuse)
  /-- The first warning is turned into an error. -/
  | parts {result : Except Error α} {b c : Bench} {warning : Warning} {more : List Warning}
      (written : spliced = false) (warned : b.warnings = past ++ warning :: more) :
      Sharpens spliced past (result, b.under .warn)
        (.error (.inertOverride warning.unit warning.key), c)

/-- A step that a policy changes in no other way than by turning a warning into an error. -/
def Step.Policed {α : Type} (spliced : Bool) (m : Step Bench α) : Prop :=
  ∀ b : Bench, Sharpens spliced b.warnings (exec m (b.under .warn)) (exec m (b.under .refuse))

namespace Step.Policed

variable {α β : Type} {spliced : Bool}

theorem pure (a : α) : Policed spliced (Pure.pure a) := fun _ => .same rfl (.ok a)

theorem throw {e : Error} (notInert : e.isInert = false) :
    Policed spliced (MonadExcept.throw e : Step Bench α) := fun _ => .same rfl (.error notInert)

theorem bind {m : Step Bench α} {f : α → Step Bench β} (first : Policed spliced m)
    (rest : ∀ a, Policed spliced (f a)) : Policed spliced (m >>= f) := by
  intro b
  rw [exec_bind, exec_bind]
  have outcomes := first b
  generalize exec m (b.under .warn) = mild at outcomes
  generalize exec m (b.under .refuse) = strict at outcomes
  cases outcomes with
  | @same result b' unwarned notInert =>
    cases result with
    | error e => exact .same unwarned (.error (notInert e rfl))
    | ok a =>
      rw [← unwarned]
      exact rest a b'
  | @parts result b' c warning more written warned =>
    cases result with
    | error e => exact .parts written warned
    | ok a =>
      -- The strict run has failed; the mild one goes on and may issue more warnings.
      have later := rest a b'
      dsimp only
      generalize exec (f a) (b'.under .warn) = mild at later
      generalize exec (f a) (b'.under .refuse) = strict at later
      cases later with
      | same unwarned => exact .parts written (unwarned.trans warned)
      | @parts _ _ _ warning' more' _ warned' =>
        rw [warned, List.append_assoc, List.cons_append] at warned'
        exact .parts written warned'

/-- What reads nothing of the policy reads the same under both. -/
theorem get_bind {f : Bench → Step Bench α} (blind : ∀ b p, f (b.under p) = f b)
    (h : ∀ b, Policed spliced (f b)) : Policed spliced (get >>= f) := by
  intro b
  rw [exec_get_bind, exec_get_bind, blind, blind]
  exact h b b

theorem lift_bind {r : Except Error α} {f : α → Step Bench β}
    (notInert : NotInert r) (h : ∀ a, Policed spliced (f a)) :
    Policed spliced (Bench.lift r >>= f) := by
  cases r with
  | error e => exact fun _ => .same rfl (.error (notInert e rfl))
  | ok a => exact h a

theorem forM {f : α → Step Bench Unit} {xs : List α} (h : ∀ x, Policed spliced (f x)) :
    Policed spliced (xs.forM f) := by
  induction xs with
  | nil => exact pure _
  | cons x xs ih => exact (h x).bind fun _ => ih

theorem mapM {f : α → Step Bench β} {xs : List α} (h : ∀ x, Policed spliced (f x)) :
    Policed spliced (xs.mapM f) := by
  induction xs with
  | nil => exact pure _
  | cons x xs ih =>
    rw [List.mapM_cons]
    exact (h x).bind fun y => ih.bind fun ys => pure (y :: ys)

theorem updateDraft {f : Draft → Except Error Draft}
    (notInert : ∀ d, NotInert (f d)) : Policed spliced (Bench.updateDraft f) := by
  intro b
  rw [Bench.exec_updateDraft_under, Bench.exec_updateDraft_under]
  cases written : f b.session.draft with
  | error e => exact .same rfl (.error (notInert _ e written))
  | ok d => exact .same rfl (.ok _)

theorem updateProgram {f : Program → Except Error Program}
    (notInert : ∀ p, NotInert (f p)) :
    Policed spliced (Bench.updateProgram f) := by
  intro b
  rw [Bench.exec_updateProgram_under, Bench.exec_updateProgram_under]
  cases written : f b.program with
  | error e => exact .same rfl (.error (notInert _ e written))
  | ok p => exact .same rfl (.ok _)

/-- **What is spliced** is the same under both policies, without a warning and without a refusal. -/
theorem silent {m : Step Bench α} (h : Policed true m) (b : Bench) :
    ∃ (result : Except Error α) (b' : Bench), b'.warnings = b.warnings ∧
      NotInert result ∧ ∀ p, exec m (b.under p) = (result, b'.under p) := by
  have outcomes := h b
  generalize mild : exec m (b.under .warn) = r at outcomes
  generalize strict : exec m (b.under .refuse) = r' at outcomes
  cases outcomes with
  | parts written => cases written
  | same unwarned notInert =>
    refine ⟨_, _, unwarned, notInert, fun p => ?_⟩
    cases p with
    | warn => exact mild
    | refuse => exact strict

end Step.Policed

/-! ## Programs -/

namespace Program

/-- What reads the image of a unit fails if the unit is not loaded, which is no matter of a key. -/
theorem notInert_of_image {α : Type} (p : Program) (unit : String) {f : Image → Except Error α}
    (notInert : ∀ image, NotInert (f image)) :
    NotInert (p.image unit >>= f) := by
  refine Fails.bind ?_ fun image _ => notInert image
  unfold image
  split
  · exact .ok _
  · exact .error rfl

theorem notInert_emit (p : Program) (unit : String) (e : Emission) :
    NotInert (p.emit unit e) :=
  p.notInert_of_image unit fun _ => .ok _

theorem notInert_require (p : Program) (unit : String) (units : List String) :
    NotInert (p.require unit units) :=
  p.notInert_of_image unit fun _ => .ok _

theorem notInert_closeUnit (p : Program) (unit : String) (registry : Registry) :
    NotInert (p.closeUnit unit registry) := by
  refine p.notInert_of_image unit fun image => ?_
  dsimp only
  split
  · exact .ok _
  · exact .error rfl

end Program

/-- Looking a registry up fails if it is not published, which is no matter of a key. -/
theorem Store.notInert_require (store : Store) (unit byUnit : String) :
    NotInert (store.require unit byUnit) := by
  unfold require
  split
  · exact .ok _
  · exact .error rfl

theorem Store.notInert_requireValue (store : Store) (unit : Value) (byUnit : String) :
    NotInert (store.requireValue unit byUnit) := by
  unfold requireValue
  split
  · exact store.notInert_require _ _
  · exact .error rfl

/-! ## Declarations at a locked key -/

namespace Ledger

/-- **Where the policy counts.**  A declaration is treated in the same way under both policies, and
without a warning, unless the unit itself declares an inherited key that is locked. -/
theorem assess_under (l : Ledger) (d : Draft) (key : Key) (spliced : Bool) :
    (∃ admission, ∀ p, (l.under p).assess d key spliced = .ok (admission, none)) ∨
      (spliced = false ∧
        (l.under .warn).assess d key spliced = .ok (.inert, some ⟨d.unit, key⟩) ∧
        (l.under .refuse).assess d key spliced = .error (.inertOverride d.unit key)) := by
  by_cases isWithheld : d.withheld.contains key = true
  · exact .inl ⟨.isLocal, fun p => if_pos isWithheld⟩
  · cases found : d.routines.get? key with
    | none =>
      refine .inl ⟨.record, fun p => ?_⟩
      rw [assess, if_neg isWithheld, found]
    | some routine =>
      have unfolded : ∀ p, (l.under p).assess d key spliced =
          if !routine.inherited || l.mayReplace key routine then .ok (.replace, none)
          else (l.under p).refuseInert d.unit key spliced := fun p => by
        rw [assess, if_neg isWithheld, found]
        rfl
      simp only [unfolded]
      split
      · exact .inl ⟨.replace, fun _ => rfl⟩
      · cases spliced with
        | true => exact .inl ⟨.inert, fun _ => rfl⟩
        | false => exact .inr ⟨rfl, rfl, rfl⟩

/-- What the ledger does with a declaration is the same under both policies, unless the strict one
refuses it for being inert. -/
theorem declare_under (l : Ledger) (d : Draft) (key : Key) (params guards : List Tree) (body : Tree)
    (spliced : Bool) :
    (∃ e, e.isInert = false ∧
        ∀ p, (l.under p).declare d key params guards body spliced = .error e) ∨
      (∃ admission d',
        ∀ p, (l.under p).declare d key params guards body spliced = .ok (admission, none, d')) ∨
      (spliced = false ∧
        (l.under .warn).declare d key params guards body spliced =
          .ok (.inert, some ⟨d.unit, key⟩, d) ∧
        (l.under .refuse).declare d key params guards body spliced =
          .error (.inertOverride d.unit key)) := by
  rcases l.assess_under d key spliced with ⟨admission, assessed⟩ | ⟨written, mild, strict⟩
  · simp only [declare, assessed, bind, Except.bind]
    cases admission.isRecorded with
    | false => exact .inr (.inl ⟨admission, d, fun _ => rfl⟩)
    | true =>
      cases recorded : d.record key (nativeRecord params guards body) with
      | error e =>
        have notInert : NotInert (d.record key (nativeRecord params guards body)) :=
          d.fails_write Error.isInert_of_isOwn _
        exact .inl ⟨e, notInert e recorded, fun _ => rfl⟩
      | ok d' => exact .inr (.inl ⟨admission, d', fun _ => rfl⟩)
  · refine .inr (.inr ⟨written, ?_, ?_⟩)
    · rw [declare, mild]
      rfl
    · rw [declare, strict]
      rfl

end Ledger

/-! ## Operations -/

namespace Session

open Step (Policed)
open Bench (lift updateDraft updateProgram warn)

variable {spliced : Bool} (store : Store)

theorem declarePrivate_policed (e : Emission) : Policed spliced (declarePrivate e) := by
  refine .get_bind (fun _ _ => rfl) fun b => ?_
  split
  · exact .throw rfl
  · refine Policed.bind (.updateDraft fun d => ?_) fun _ => .pure _
    exact d.fails_write Error.isInert_of_isOwn _

theorem warn_none_policed : Policed spliced (warn none) := by
  intro b
  have silent : ∀ p, exec (warn none) (b.under p) = (.ok ⟨⟩, b.under p) := fun p => by
    rw [Bench.exec_warn]
    simp
  rw [silent, silent]
  exact .same rfl (.ok _)

/-- What follows where the ledger admits a public declaration without a warning. -/
theorem enrol_policed (admission : Admission) (units : NameSet) :
    Policed spliced (do
      warn none
      if admission.isRecorded then updateDraft (·.addDependencies units.toList)
      return admission) := by
  refine warn_none_policed.bind fun _ => ?_
  split
  · refine Policed.bind (.updateDraft fun d => ?_) fun _ => .pure _
    exact d.fails_write Error.isInert_of_isOwn _
  · exact .pure _

/-- **The one place** where the two policies part. -/
theorem declarePublic_policed (e : Emission) (units : NameSet) :
    Policed spliced (declarePublic e units spliced) := by
  intro b
  unfold declarePublic
  rw [Step.exec_get_bind, Step.exec_get_bind]
  by_cases isPrivate : b.session.draft.privateKeys.contains e.key = true
  · have both : ∀ p, (b.under p).session.draft.privateKeys.contains e.key = true :=
      fun _ => isPrivate
    rw [if_pos (both _), if_pos (both _)]
    exact .same rfl (.error rfl)
  · have both : ∀ p, ¬ (b.under p).session.draft.privateKeys.contains e.key = true :=
      fun _ => isPrivate
    rw [if_neg (both _), if_neg (both _)]
    show Sharpens spliced b.warnings
      (exec (lift ((b.session.ledger.under .warn).declare b.session.draft e.key e.params e.guards
        e.body spliced) >>= _) (b.under .warn))
      (exec (lift ((b.session.ledger.under .refuse).declare b.session.draft e.key e.params e.guards
        e.body spliced) >>= _) (b.under .refuse))
    rcases b.session.ledger.declare_under b.session.draft e.key e.params e.guards e.body
      spliced with ⟨error, notInert, failed⟩ | ⟨admission, d, declared⟩ | ⟨written, mild, strict⟩
    · rw [failed, failed]
      exact .same rfl (.error notInert)
    · rw [declared, declared]
      exact enrol_policed admission units (b.withDraft d)
    · rw [mild, strict]
      let warning : Warning := ⟨b.session.draft.unit, e.key⟩
      exact Sharpens.parts (b := { b with warnings := b.warnings ++ [warning] }) written rfl

theorem deliver_policed (e : Emission) (admission : Admission) :
    Policed spliced (deliver e admission) := by
  have put : Policed spliced (do let b ← get; updateProgram (·.emit b.unit e)) :=
    .get_bind (fun _ _ => rfl) fun b => .updateProgram fun p => p.notInert_emit b.unit e
  cases admission with
  | inert =>
    exact fun b => Sharpens.same
      (b := { b with session := { b.session with inert := b.session.inert ++ [e] } }) rfl (.ok _)
  | record | replace | isLocal => exact put

theorem declareVariant_policed (declaration : Declaration) (units : NameSet) (v : Tree.Variant) :
    Policed spliced (declareVariant declaration units spliced v) := by
  have delivered : ∀ e admission, Policed spliced (do deliver e admission; return admission) :=
    fun e admission => (deliver_policed e admission).bind fun _ => .pure _
  unfold declareVariant
  dsimp only
  split
  · exact (declarePrivate_policed _).bind (delivered _)
  · exact (declarePublic_policed _ _).bind (delivered _)

theorem require_policed (unit : String) (units : List String) :
    Policed spliced (updateProgram (·.require unit units)) :=
  .updateProgram fun p => p.notInert_require unit units

/-- **Declarations.**  The variants are declared one by one, so the policies may part at any of
them. -/
theorem define_policed (declaration : Declaration) :
    Policed spliced (define store declaration spliced) := by
  refine .get_bind (fun _ _ => rfl) fun b => .lift_bind ?_ fun _ => ?_
  · exact fails_prepareAll Error.isInert_of_isOwn
      (fun base _ => store.notInert_require base _) declaration
  · refine Policed.bind (.mapM fun v => declareVariant_policed declaration _ v) fun _ => ?_
    split
    · exact (require_policed b.unit _).bind fun _ => .pure _
    · exact .pure _

theorem grant_policed (key : Key) : Policed spliced (grant key) :=
  .updateDraft fun d => Ledger.fails_grant Error.isInert_of_isOwn d key

theorem withhold_policed (key : Key) : Policed spliced (withhold key) :=
  .updateDraft fun d => Ledger.fails_withhold Error.isInert_of_isOwn d key

theorem setHooks_policed (pre post : Option Hook) : Policed spliced (setHooks pre post) :=
  .updateDraft fun d => d.fails_write Error.isInert_of_isOwn _

theorem importRoutines_policed (source : Value) (keys : Option (List Key)) :
    Policed spliced (importRoutines store source keys) := by
  refine .get_bind (fun _ _ => rfl) fun b => .lift_bind (store.notInert_requireValue source _) ?_
  refine fun registry => .forM fun key => ?_
  unfold importRoutine
  split
  · exact .updateDraft fun d => d.fails_write Error.isInert_of_isOwn _
  · exact .throw rfl

theorem grantRecorded_policed (name : String) (arity : Nat) (admissions : List Admission) :
    Policed spliced (grantRecorded name arity admissions) := by
  induction admissions generalizing arity with
  | nil => exact .pure _
  | cons admission admissions ih =>
    unfold grantRecorded
    split
    · exact (grant_policed _).bind fun _ => ih (arity + 1)
    · exact ih (arity + 1)

/-- **Statements.** -/
theorem run_policed (statement : Statement) : Policed spliced (run store spliced statement) := by
  cases statement with
  | define declaration =>
    refine (define_policed store declaration).bind fun admissions => ?_
    split
    · exact grantRecorded_policed _ _ _
    · exact .pure _
  | grant key => exact grant_policed key
  | withhold key => exact withhold_policed key

theorem splice_policed (hooks : List Hook) : Policed true (splice store hooks) :=
  .forM fun _ => .forM fun statement => run_policed store statement

theorem emitInherited_policed (e : Emission) : Policed spliced (emitInherited e) := by
  refine .get_bind (fun _ _ => rfl) fun b => ?_
  split
  · exact .pure _
  · exact .updateProgram fun p => p.notInert_emit b.unit e

/-- **Putting in place what is inherited** executes hooks, and nothing that the unit has written. -/
theorem materialize_policed (emissions : EmissionList) :
    Policed true (materialize store emissions) := by
  refine (splice_policed store _).bind fun _ => ?_
  refine (Policed.forM emitInherited_policed).bind fun _ => ?_
  refine .get_bind (fun _ _ => rfl) fun b => ?_
  exact (require_policed b.unit _).bind fun _ => splice_policed store _

/-- **Closing** is the same under both policies. -/
theorem close_policed : Policed spliced close := by
  intro b
  unfold close
  rw [Step.exec_get_bind, Step.exec_get_bind]
  show Sharpens spliced b.warnings (exec (lift b.session.draft.close >>= _) (b.under .warn))
    (exec (lift b.session.draft.close >>= _) (b.under .refuse))
  cases sealed : b.session.draft.close with
  | error e =>
    exact .same rfl (.error (b.session.draft.fails_close Error.isInert_of_isOwn e sealed))
  | ok result =>
    obtain ⟨registry, d⟩ := result
    have rest : Policed spliced (do
        updateProgram (·.closeUnit b.unit registry)
        return registry) :=
      Policed.bind (.updateProgram fun p => p.notInert_closeUnit b.unit registry) fun _ => .pure _
    exact rest (b.withDraft d)

end Session

/-! ## Opening -/

/-- Resolution does not ask for the policy. -/
theorem resolve_under (registry : Registry) (fields : Value) (unit : String) (config : Config)
    (p : InertPolicy) :
    resolve registry fields unit (config.under p) = resolve registry fields unit config := rfl

/-- **Opening an extension** is the same under both policies, with hooks that declare routines at
locked keys or without. -/
theorem Site.exec_openExtension_under (site : Site) (config : Config) (unit base : String)
    (fields : Value) :
    (∃ e site', e.isInert = false ∧ site'.warnings = site.warnings ∧
        ∀ p, exec (openExtension (config.under p) unit base fields) site = (.error e, site')) ∨
      ∃ b : Bench, b.warnings = site.warnings ∧
        ∀ p, exec (openExtension (config.under p) unit base fields) site =
          (.ok (b.session.under p),
            { site with program := b.program, warnings := b.warnings }) := by
  simp only [exec_openExtension, resolve_under]
  cases site.store.get? base with
  | none => exact .inl ⟨_, site, rfl, rfl, fun _ => rfl⟩
  | some registry =>
    dsimp only
    cases resolved : resolve registry fields unit config with
    | error e =>
      have notInert := fails_resolve Error.isInert_of_isOwn registry fields unit config e resolved
      exact .inl ⟨e, site, notInert, rfl, fun _ => rfl⟩
    | ok resolution =>
      dsimp only
      split
      · exact .inl ⟨_, site, rfl, rfl, fun _ => rfl⟩
      · obtain ⟨result, b, unwarned, notInert, put⟩ :=
          Step.Policed.silent (Session.materialize_policed site.store resolution.emissions)
            (site.openingBench config resolution.draft)
        have under : ∀ p, site.openingBench (config.under p) resolution.draft =
            (site.openingBench config resolution.draft).under p := fun _ => rfl
        simp only [under, put]
        cases result with
        | error e =>
          exact .inl ⟨e, { site with program := b.program, warnings := b.warnings },
            notInert e rfl, unwarned, fun _ => rfl⟩
        | ok _ => exact .inr ⟨b, unwarned, fun _ => rfl⟩

/-! ## Commands -/

namespace Command

/-- Whether a command executes a statement from a hook. -/
def isSpliced : Command → Bool
  | .run _ _ spliced => spliced
  | _ => false

/-- What a session works at is changed by a policy in no other way. -/
theorem work?_policed {command : Command} {store : Store} {m : Step Bench Reply}
    (isWork : command.work? store = some m) : Step.Policed command.isSpliced m := by
  cases command with
  | openRoot | openExtension | finish => cases isWork
  | define unit declaration =>
    cases isWork
    exact (Session.define_policed store declaration).bind fun _ => .pure _
  | grant unit key =>
    cases isWork
    exact (Session.grant_policed key).bind fun _ => .pure _
  | withhold unit key =>
    cases isWork
    exact (Session.withhold_policed key).bind fun _ => .pure _
  | importRoutines unit source keys =>
    cases isWork
    exact (Session.importRoutines_policed store source keys).bind fun _ => .pure _
  | setHooks unit pre post =>
    cases isWork
    exact (Session.setHooks_policed pre post).bind fun _ => .pure _
  | run unit statement spliced =>
    cases isWork
    exact (Session.run_policed store statement).bind fun _ => .pure _

end Command

namespace Workspace

variable {w w' : Workspace} {unit : String} {command : Command} {commands : List Command}

/-- Two workspaces are the same, but that the session of one unit is under the mild policy in the
first one and under the strict policy in the second one. -/
structure Stricter (unit : String) (w w' : Workspace) : Prop where
  /-- The same is published. -/
  store : w'.store = w.store
  /-- The images are the same. -/
  program : w'.program = w.program
  /-- The same warnings have been issued. -/
  warnings : w'.warnings = w.warnings
  /-- The sessions have the same draft, the same permissions and the same declarations without
  effect. -/
  session : ∃ s : Session, w.sessions.get? unit = some (s.under .warn) ∧
    w'.sessions.get? unit = some (s.under .refuse)
  /-- The other sessions are the same. -/
  elsewhere : ∀ other, other ≠ unit → w'.sessions.get? other = w.sessions.get? other

/-- The session of a unit is under the mild policy. -/
def Mild (unit : String) (w : Workspace) : Prop :=
  ∃ s : Session, w.sessions.get? unit = some (s.under .warn)

theorem Stricter.mild (h : w.Stricter unit w') : w.Mild unit := h.session.imp fun _ h => h.1

/-- A mild session could have been a strict one. -/
theorem Mild.exists_stricter (h : w.Mild unit) : ∃ w', w.Stricter unit w' := by
  obtain ⟨s, session⟩ := h
  refine ⟨{ w with sessions := w.sessions.insert unit (s.under .refuse) }, rfl, rfl, rfl,
    ⟨s, session, ?_⟩, fun other ne => ?_⟩
  · exact (get?_sessions_insert ..).trans (if_pos rfl)
  · exact (get?_sessions_insert ..).trans (if_neg (Ne.symm ne))

/-- Where a session has worked under either policy, the workspaces differ in that. -/
theorem stricter_withBench (store : w'.store = w.store)
    (elsewhere : ∀ other, other ≠ unit → w'.sessions.get? other = w.sessions.get? other)
    (b : Bench) :
    (w.withBench unit (b.under .warn)).Stricter unit (w'.withBench unit (b.under .refuse)) where
  store := store
  program := rfl
  warnings := rfl
  session := ⟨b.session, (get?_sessions_insert ..).trans (if_pos rfl),
    (get?_sessions_insert ..).trans (if_pos rfl)⟩
  elsewhere other ne := by
    show (w'.sessions.insert unit _).get? other = (w.sessions.insert unit _).get? other
    rw [get?_sessions_insert, get?_sessions_insert, if_neg (Ne.symm ne), if_neg (Ne.symm ne)]
    exact elsewhere other ne

theorem Stricter.withBench (h : w.Stricter unit w') (b : Bench) :
    (w.withBench unit (b.under .warn)).Stricter unit (w'.withBench unit (b.under .refuse)) :=
  stricter_withBench h.store h.elsewhere b

/-- What a session does on stricter workspaces. -/
theorem Stricter.sharpens {α : Type} (h : w.Stricter unit w') {spliced : Bool} {m : Step Bench α}
    (policed : Step.Policed spliced m) (s : Session) :
    Sharpens spliced w.warnings (exec m (w.bench (s.under .warn)))
      (exec m (w'.bench (s.under .refuse))) := by
  have same : w'.bench (s.under .refuse) = (w.bench s).under .refuse := by
    rw [bench, h.program, h.warnings]
    rfl
  rw [same]
  exact policed (w.bench s)

/-- What a command does under the two policies: the same, or the strict one refuses what is the
first warning of the mild one. -/
inductive Parts (unit : String) (command : Command) (w w' : Workspace) : Prop where
  /-- Both do the same. -/
  | same (outcome : w'.outcome command = w.outcome command)
      (notInert : NotInert (w.outcome command))
      (unwarned : (w.after command).warnings = w.warnings)
      (stricter : (w.after command).Stricter unit (w'.after command))
  /-- A warning is turned into an error. -/
  | parts {warning : Warning} {more : List Warning} (written : command.isSpliced = false)
      (warned : (w.after command).warnings = w.warnings ++ warning :: more)
      (refused : w'.outcome command = .error (.inertOverride warning.unit warning.key))
      (mild : (w.after command).Mild unit)

theorem Parts.of_exec {result : Except Error Reply} {w₁ w₁' : Workspace}
    (performed : exec (perform command) w = (result, w₁))
    (performed' : exec (perform command) w' = (result, w₁')) (unwarned : w₁.warnings = w.warnings)
    (notInert : NotInert result) (stricter : w₁.Stricter unit w₁') :
    Parts unit command w w' := by
  have outcome : w.outcome command = result := congrArg Prod.fst performed
  have after : w.after command = w₁ := congrArg Prod.snd performed
  have after' : w'.after command = w₁' := congrArg Prod.snd performed'
  refine .same ((congrArg Prod.fst performed').trans outcome.symm) (outcome ▸ notInert) ?_ ?_
  · rw [after]
    exact unwarned
  · rw [after, after']
    exact stricter

/-- **A command that a session works at** does the same under both policies up to the first
warning. -/
theorem Stricter.parts_of_work (h : w.Stricter unit w') (own : command.unit = unit)
    {m : Step Bench Reply} (isWork : command.work? w.store = some m) :
    Parts unit command w w' := by
  obtain ⟨s, session, session'⟩ := h.session
  have performed := exec_perform_of_work isWork
  have performed' := exec_perform_of_work (w := w') (h.store.symm ▸ isWork)
  rw [own, session] at performed
  rw [own, session'] at performed'
  have outcomes := h.sharpens (Command.work?_policed isWork) s
  dsimp only at performed performed'
  generalize exec m (w.bench (s.under .warn)) = mild at outcomes performed
  generalize exec m (w'.bench (s.under .refuse)) = strict at outcomes performed'
  cases outcomes with
  | @same result b unwarned notInert =>
    exact .of_exec performed performed' unwarned notInert (h.withBench b)
  | @parts result b c warning more written warned =>
    have after : w.after command = w.withBench unit (b.under .warn) := congrArg Prod.snd performed
    have heard : (w.after command).warnings = w.warnings ++ warning :: more := by
      rw [after]
      exact warned
    refine .parts written heard (congrArg Prod.fst performed') ⟨b.session, ?_⟩
    rw [after]
    exact (get?_sessions_insert ..).trans (if_pos rfl)

/-- What stricter workspaces leave behind that have published a registry. -/
theorem Stricter.publishing (h : w.Stricter unit w') (registry : Registry) :
    (w.publishing registry).Stricter unit (w'.publishing registry) where
  store := congrArg (fun store : Store =>
    (⟨store.published.insert registry.unit registry⟩ : Store)) h.store
  program := h.program
  warnings := h.warnings
  session := h.session
  elsewhere := h.elsewhere

/-- **Finishing** is the same under both policies. -/
theorem Stricter.parts_of_finish (h : w.Stricter unit w') : Parts unit (.finish unit) w w' := by
  obtain ⟨s, session, session'⟩ := h.session
  have performed := exec_perform_finish session
  have performed' := exec_perform_finish session'
  have policed : Step.Policed true Session.close := Session.close_policed
  have outcomes := h.sharpens policed s
  generalize exec Session.close (w.bench (s.under .warn)) = mild at outcomes performed
  generalize exec Session.close (w'.bench (s.under .refuse)) = strict at outcomes performed'
  cases outcomes with
  | parts written => cases written
  | @same result b unwarned notInert =>
    have stricter := h.withBench b
    cases result with
    | error e => exact .of_exec performed performed' unwarned (.error (notInert e rfl)) stricter
    | ok registry =>
      dsimp only at performed performed'
      rw [exec_publish] at performed performed'
      split at performed
      · next present =>
        rw [if_pos (by rw [stricter.store]; exact present)] at performed'
        exact .of_exec performed performed' unwarned (.error rfl) stricter
      · next absent =>
        rw [if_neg (by rw [stricter.store]; exact absent)] at performed'
        exact .of_exec performed performed' unwarned (.ok _) (stricter.publishing registry)

/-- **One command** of the unit does the same under both policies up to the first warning. -/
theorem Stricter.parts (h : w.Stricter unit w') (own : command.unit = unit)
    (working : command.isOpening = false) : Parts unit command w w' := by
  cases command with
  | openRoot | openExtension => cases working
  | finish unit' =>
    cases own
    exact h.parts_of_finish
  | define | grant | withhold | importRoutines | setHooks | run => exact h.parts_of_work own rfl

/-- **The first warning** is the one that the strict policy turns into an error. -/
theorem Parts.warned_iff_refused (h : Parts unit command w w') (warning : Warning) :
    (∃ more, (w.after command).warnings = w.warnings ++ warning :: more) ↔
      w'.outcome command = .error (.inertOverride warning.unit warning.key) := by
  cases h with
  | same outcome notInert unwarned =>
    refine ⟨fun ⟨more, warned⟩ => ?_, fun refused => ?_⟩
    · exact absurd (List.append_right_eq_self.1 (warned.symm.trans unwarned)) (List.cons_ne_nil _ _)
    · cases notInert _ (outcome.symm.trans refused)
  | @parts warning' more _ warned refused =>
    rw [warned, refused]
    refine ⟨fun ⟨more', agree⟩ => ?_, fun agree => ?_⟩
    · cases List.append_cancel_left agree
      rfl
    · cases warning
      cases warning'
      cases agree
      exact ⟨more, rfl⟩

/-- The list of warnings of a mild session grows. -/
theorem Mild.grows (h : w.Mild unit)
    (own : ∀ command ∈ commands, command.unit = unit ∧ command.isOpening = false) :
    ∃ more, (w.afterAll commands).warnings = w.warnings ++ more := by
  induction commands generalizing w with
  | nil => exact ⟨[], (List.append_nil _).symm⟩
  | cons command commands ih =>
    obtain ⟨⟨first, working⟩, rest⟩ := List.forall_mem_cons.1 own
    obtain ⟨w', stricter⟩ := h.exists_stricter
    cases stricter.parts first working with
    | same _ _ unwarned stricter' =>
      obtain ⟨more, later⟩ := ih stricter'.mild rest
      exact ⟨more, by rw [afterAll_cons, later, unwarned]⟩
    | @parts warning more _ warned _ mild =>
      obtain ⟨more', later⟩ := ih mild rest
      exact ⟨warning :: more ++ more', by rw [afterAll_cons, later, warned, List.append_assoc]⟩

/-- **A run of commands** without a warning is the same under both policies; and there is none
exactly if the strict run refuses nothing for being inert. -/
theorem Stricter.afterAll (h : w.Stricter unit w')
    (own : ∀ command ∈ commands, command.unit = unit ∧ command.isOpening = false) :
    ((w.afterAll commands).warnings = w.warnings ↔
        ∀ outcome ∈ w'.outcomes commands, NotInert outcome) ∧
      ((w.afterAll commands).warnings = w.warnings →
        w'.outcomes commands = w.outcomes commands ∧
          (w.afterAll commands).Stricter unit (w'.afterAll commands)) := by
  induction commands generalizing w w' with
  | nil => exact ⟨⟨fun _ _ member => (nomatch member), fun _ => rfl⟩, fun _ => ⟨rfl, h⟩⟩
  | cons command commands ih =>
    obtain ⟨⟨first, working⟩, rest⟩ := List.forall_mem_cons.1 own
    rw [outcomes, outcomes, afterAll_cons, afterAll_cons, List.forall_mem_cons]
    cases h.parts first working with
    | same outcome notInert unwarned stricter =>
      obtain ⟨silent, same⟩ := ih stricter rest
      rw [unwarned] at silent same
      refine ⟨silent.trans (and_iff_right (outcome ▸ notInert)).symm, fun none => ?_⟩
      obtain ⟨later, left⟩ := same none
      exact ⟨by rw [outcome, later], left⟩
    | @parts warning more _ warned refused mild =>
      obtain ⟨more', later⟩ := mild.grows rest
      have heard : ((w.after command).afterAll commands).warnings ≠ w.warnings := by
        rw [later, warned, List.append_assoc]
        exact fun none => List.cons_ne_nil _ _ (List.append_right_eq_self.1 none)
      refine ⟨⟨fun none => absurd none heard, fun ⟨notInert, _⟩ => ?_⟩,
        fun none => absurd none heard⟩
      cases notInert _ refused

/-- **Opening** leaves stricter workspaces, unless it fails under both policies. -/
theorem openings_under (w : Workspace) (config : Config) (unit base : String) (fields : Value) :
    (∃ e w', e.isInert = false ∧ w'.warnings = w.warnings ∧
        ∀ p, exec (perform (.openExtension (config.under p) unit base fields)) w =
          (.error e, w')) ∨
      ∃ b : Bench, b.warnings = w.warnings ∧
        ∀ p, exec (perform (.openExtension (config.under p) unit base fields)) w =
          (.ok .done, w.withBench unit (b.under p)) := by
  rcases w.toSite.exec_openExtension_under config unit base fields with
    ⟨e, site, notInert, unwarned, failed⟩ | ⟨b, unwarned, done⟩
  · refine .inl ⟨e, { w with toSite := site }, notInert, unwarned, fun p => ?_⟩
    show exec (opening unit (Site.openExtension (config.under p) unit base fields)) w = _
    rw [exec_opening, failed]
  · refine .inr ⟨b, unwarned, fun p => ?_⟩
    show exec (opening unit (Site.openExtension (config.under p) unit base fields)) w = _
    rw [exec_opening, done]
    rfl

/-- **A statement from a hook** is never warned about and never refused for being inert, whatever
the policy of the session is. -/
theorem silent_of_spliced (w : Workspace) (unit : String) (statement : Statement) :
    (w.after (.run unit statement true)).warnings = w.warnings ∧
      NotInert (w.outcome (.run unit statement true)) := by
  have isWork : Command.work? w.store (.run unit statement true) = some _ := rfl
  have performed := exec_perform_of_work isWork
  have own : (Command.run unit statement true).unit = unit := rfl
  show (exec (perform (.run unit statement true)) w).2.warnings = w.warnings ∧
    NotInert (exec (perform (.run unit statement true)) w).1
  rw [own] at performed
  rw [performed]
  cases w.sessions.get? unit with
  | none => exact ⟨rfl, .error rfl⟩
  | some s =>
    obtain ⟨result, b, unwarned, notInert, ran⟩ :=
      Step.Policed.silent (Command.work?_policed isWork) (w.bench s)
    -- The session is itself under one of the two policies.
    have ran' : exec _ (w.bench s) = _ := ran s.config.inertPolicy
    dsimp only
    rw [ran']
    exact ⟨unwarned, notInert⟩

/-- The workspace after an extension has been opened under a policy. -/
def extended (w : Workspace) (config : Config) (unit base : String) (fields : Value)
    (p : InertPolicy) : Workspace :=
  w.after (.openExtension (config.under p) unit base fields)

/-- **The two policies.**  Let an extension be opened under each of them, and let each session be
given the same commands.  Opening is the same.  As long as the mild run has issued no warning, all
commands have the same outcome, and the drafts, the images and the published registries are the
same; and the next command issues a first warning exactly if the strict policy turns that warning
into an error.  So no warning has been issued exactly if nothing has been refused for being inert.
Statements from hooks are neither warned about nor refused for that. -/
theorem sharpens_of_policies (w : Workspace) (config : Config) (unit base : String)
    (fields : Value) {commands : List Command}
    (own : ∀ command ∈ commands, command.unit = unit ∧ command.isOpening = false) :
    (w.outcome (.openExtension (config.under .refuse) unit base fields) =
        w.outcome (.openExtension (config.under .warn) unit base fields) ∧
      NotInert (w.outcome (.openExtension (config.under .warn) unit base fields)) ∧
      (w.extended config unit base fields .warn).warnings = w.warnings ∧
      (w.extended config unit base fields .refuse).toSite =
        (w.extended config unit base fields .warn).toSite) ∧
    (w.outcome (.openExtension (config.under .warn) unit base fields) = .ok .done →
      (((w.extended config unit base fields .warn).afterAll commands).warnings = w.warnings ↔
        ∀ outcome ∈ (w.extended config unit base fields .refuse).outcomes commands,
          NotInert outcome) ∧
      (((w.extended config unit base fields .warn).afterAll commands).warnings = w.warnings →
        (w.extended config unit base fields .refuse).outcomes commands =
          (w.extended config unit base fields .warn).outcomes commands ∧
        ((w.extended config unit base fields .warn).afterAll commands).Stricter unit
          ((w.extended config unit base fields .refuse).afterAll commands) ∧
        ∀ command : Command, command.unit = unit → command.isOpening = false →
          ∀ warning : Warning,
            (∃ more, (((w.extended config unit base fields .warn).afterAll commands).after
                command).warnings = w.warnings ++ warning :: more) ↔
              ((w.extended config unit base fields .refuse).afterAll commands).outcome command =
                .error (.inertOverride warning.unit warning.key))) ∧
    ∀ (v : Workspace) (unit : String) (statement : Statement),
      (v.after (.run unit statement true)).warnings = v.warnings ∧
        NotInert (v.outcome (.run unit statement true)) := by
  refine ⟨?_, fun done => ?_, silent_of_spliced⟩
  · rcases w.openings_under config unit base fields with
      ⟨e, w', notInert, unwarned, failed⟩ | ⟨b, unwarned, opened⟩
    · have outcome : ∀ p, w.outcome (.openExtension (config.under p) unit base fields) = .error e :=
        fun p => congrArg Prod.fst (failed p)
      have after : ∀ p, w.extended config unit base fields p = w' := fun p =>
        congrArg Prod.snd (failed p)
      rw [outcome, outcome, after, after]
      exact ⟨rfl, .error notInert, unwarned, rfl⟩
    · have outcome : ∀ p, w.outcome (.openExtension (config.under p) unit base fields) =
          .ok .done := fun p => congrArg Prod.fst (opened p)
      have after : ∀ p, w.extended config unit base fields p = w.withBench unit (b.under p) :=
        fun p => congrArg Prod.snd (opened p)
      rw [outcome, outcome, after, after]
      exact ⟨rfl, .ok _, unwarned, rfl⟩
  · rcases w.openings_under config unit base fields with
      ⟨e, w', -, -, failed⟩ | ⟨b, unwarned, opened⟩
    · cases done.symm.trans (congrArg Prod.fst (failed .warn))
    · have mild : w.extended config unit base fields .warn = w.withBench unit (b.under .warn) :=
        congrArg Prod.snd (opened .warn)
      have strict : w.extended config unit base fields .refuse =
          w.withBench unit (b.under .refuse) := congrArg Prod.snd (opened .refuse)
      have warnings : (w.withBench unit (b.under .warn)).warnings = w.warnings := unwarned
      have stricter : (w.withBench unit (b.under .warn)).Stricter unit
          (w.withBench unit (b.under .refuse)) := stricter_withBench rfl (fun _ _ => rfl) b
      obtain ⟨silent, same⟩ := stricter.afterAll own
      rw [warnings] at silent same
      rw [mild, strict]
      refine ⟨silent, fun none => ?_⟩
      obtain ⟨outcomes, stricter'⟩ := same none
      refine ⟨outcomes, stricter', fun command ofUnit working warning => ?_⟩
      rw [← none]
      exact (stricter'.parts ofUnit working).warned_iff_refused warning

/-- A published unit with two locked routines and a hook that declares one of them again. -/
def halfLocked : Workspace :=
  afterAll ∅ [.openRoot {} "base" (.list []),
    .define "base" ⟨"f", [.binding "x", .binding "y"], .var "x", [], false, false⟩,
    .define "base" ⟨"g", [], .literal (.int 0), [], false, false⟩,
    .setHooks "base" none
      (some [.define ⟨"g", [], .literal (.int 1), [], false, false⟩]),
    .finish "base"]

/-- What an extension does before it declares a locked routine; the second command fails. -/
def harmlessCommands : List Command :=
  [.define "child" ⟨"h", [], .literal (.int 2), [], false, true⟩,
    .grant "child" (.ofCount "missing" 0)]

/-- A declaration of a routine for two arities.  The inherited routine for the second one is
locked. -/
def twoArities : Command :=
  .define "child" ⟨"f", [.binding "x", .optional (.binding "y") (.literal (.int 0))], .var "y", [],
    false, false⟩

/-- The hook is silent, the harmless commands are the same, and the declaration is warned about or
refused; the strict run keeps the routine for the first arity. -/
theorem sharpens_twoArities :
    halfLocked.outcome (.openExtension (Config.under .warn {}) "child" "base" (.list [])) =
        .ok .done ∧
      (halfLocked.extended {} "child" "base" (.list []) .refuse).outcomes harmlessCommands =
        (halfLocked.extended {} "child" "base" (.list []) .warn).outcomes harmlessCommands ∧
      (((halfLocked.extended {} "child" "base" (.list []) .warn).afterAll
        harmlessCommands).after twoArities).warnings = [⟨"child", .ofCount "f" 2⟩] ∧
      ((halfLocked.extended {} "child" "base" (.list []) .refuse).afterAll
        harmlessCommands).outcome twoArities = .error (.inertOverride "child" (.ofCount "f" 2)) ∧
      ((((halfLocked.extended {} "child" "base" (.list []) .refuse).afterAll
        harmlessCommands).after twoArities).sessions.get? "child").map (fun s =>
          s.draft.routines.contains (.ofCount "f" 1)) = some true := by
  obtain ⟨opened, quiet, unwarned, warned, kept⟩ :
      halfLocked.outcome (.openExtension (Config.under .warn {}) "child" "base" (.list [])) =
          .ok .done ∧
        halfLocked.warnings = [] ∧
        ((halfLocked.extended {} "child" "base" (.list []) .warn).afterAll
          harmlessCommands).warnings = [] ∧
        (((halfLocked.extended {} "child" "base" (.list []) .warn).afterAll
          harmlessCommands).after twoArities).warnings = [⟨"child", .ofCount "f" 2⟩] ∧
        ((((halfLocked.extended {} "child" "base" (.list []) .refuse).afterAll
          harmlessCommands).after twoArities).sessions.get? "child").map (fun s =>
            s.draft.routines.contains (.ofCount "f" 1)) = some true := by
    cbv
  obtain ⟨-, parting, -⟩ := sharpens_of_policies halfLocked {} "child" "base" (.list [])
    (by simp [harmlessCommands, Command.unit, Command.isOpening] :
      ∀ command ∈ harmlessCommands, command.unit = "child" ∧ command.isOpening = false)
  obtain ⟨outcomes, -, next⟩ := (parting opened).2 (unwarned.trans quiet.symm)
  refine ⟨opened, outcomes, warned, ?_, kept⟩
  apply (next twoArities rfl rfl ⟨"child", .ofCount "f" 2⟩).1
  rw [quiet]
  exact ⟨[], warned⟩

end Workspace

end Heredity
