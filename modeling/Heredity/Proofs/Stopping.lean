import Heredity.Proofs.Declarations
import Heredity.Proofs.Precedence

/-!
# Where sessions stop

A loop that fails has done what stands before the step that fails.  A session works in loops: a
declaration has one step for each arity, an import one for each key, and hooks one for each
statement.  This file says of each of them when it fails, and what it leaves behind then.

* `Step.exec_mapM_eq_error_iff`, `Step.exec_forM_eq_error_iff` — a loop fails where one of its steps
  fails, after all those before it.
* `Stops`, `exec_define_eq_error_iff` — declarations, which are stopped at a variant.
* `Halts`, `exec_run_eq_error_iff` — statements, which are refused or are declarations that stop.
* `StopsImporting`, `exec_importRoutines_eq_error_iff` — imports, which are stopped at a key.
* `StopsOpening`, `exec_materialize_eq_error_iff` — what an extension inherits, which is put in
  place until a statement of a hook halts.

**What is refused changes nothing itself.**  So each of these descriptions has two parts: a reason
to refuse the whole before its first step, or the first step that is refused together with the
outcome of those before it.
-/

namespace Heredity

open Step (exec)

/-! ## Loops that fail -/

namespace Step

variable {σ α β : Type}

/-- A step that goes on fails in one of its parts. -/
theorem exec_bind_eq_error_iff {m : Step σ α} {f : α → Step σ β} {s s' : σ} {error : Error} :
    exec (m >>= f) s = (.error error, s') ↔
      exec m s = (.error error, s') ∨
        ∃ a s₁, exec m s = (.ok a, s₁) ∧ exec (f a) s₁ = (.error error, s') := by
  cases outcome : exec m s with
  | mk result s₁ =>
    cases result with
    | error _ =>
      rw [exec_bind_of_error outcome]
      simp
    | ok a =>
      rw [exec_bind_of_ok outcome]
      simp

/-- What only passes on a result fails as the step itself. -/
theorem exec_bind_pure_eq_error_iff {m : Step σ α} {f : α → β} {s s' : σ} {error : Error} :
    exec (m >>= fun a => pure (f a)) s = (.error error, s') ↔ exec m s = (.error error, s') :=
  exec_bind_eq_error_iff.trans (or_iff_left fun ⟨_, _, _, failed⟩ => nomatch failed)

/-- **A loop fails** where one of its steps fails, after all those before it. -/
theorem exec_mapM_eq_error_iff {f : α → Step σ β} {xs : List α} {s s' : σ} {error : Error} :
    exec (xs.mapM f) s = (.error error, s') ↔
      ∃ (k : Nat) (x : α) (ys : List β) (s₁ : σ), xs[k]? = some x ∧
        exec ((xs.take k).mapM f) s = (.ok ys, s₁) ∧ exec (f x) s₁ = (.error error, s') := by
  induction xs generalizing s with
  | nil => exact ⟨nofun, nofun⟩
  | cons x xs ih =>
    rw [List.mapM_cons]
    constructor
    · intro failed
      rcases exec_bind_eq_error_iff.1 failed with first | ⟨y, s₁, first, rest⟩
      · exact ⟨0, x, [], s, rfl, rfl, first⟩
      · obtain ⟨k, x', ys, s₂, isNext, beginning, failed⟩ :=
          ih.1 (exec_bind_pure_eq_error_iff.1 rest)
        refine ⟨k + 1, x', y :: ys, s₂, isNext, ?_, failed⟩
        rw [List.take_succ_cons, List.mapM_cons, exec_bind_of_ok first, exec_bind_of_ok beginning]
        rfl
    · rintro ⟨_ | k, x', ys, s₂, isNext, beginning, failed⟩
      · cases isNext
        cases beginning
        exact exec_bind_of_error failed _
      · rw [List.take_succ_cons, List.mapM_cons] at beginning
        obtain ⟨y, s₁, first, beginning⟩ := exists_of_exec_bind_eq_ok beginning
        obtain ⟨ys', s₃, done, same⟩ := exists_of_exec_bind_eq_ok beginning
        cases same
        rw [exec_bind_of_ok first, exec_bind_pure_eq_error_iff]
        exact ih.2 ⟨k, x', ys', s₂, isNext, done, failed⟩

/-- A loop without results fails in the same way. -/
theorem exec_forM_eq_error_iff {f : α → Step σ Unit} {xs : List α} {s s' : σ} {error : Error} :
    exec (xs.forM f) s = (.error error, s') ↔
      ∃ (k : Nat) (x : α) (s₁ : σ), xs[k]? = some x ∧
        exec ((xs.take k).forM f) s = (.ok ⟨⟩, s₁) ∧ exec (f x) s₁ = (.error error, s') := by
  induction xs generalizing s with
  | nil => exact ⟨nofun, nofun⟩
  | cons x xs ih =>
    show exec (f x >>= fun _ => xs.forM f) s = _ ↔ _
    constructor
    · intro failed
      rcases exec_bind_eq_error_iff.1 failed with first | ⟨_, s₁, first, rest⟩
      · exact ⟨0, x, s, rfl, rfl, first⟩
      · obtain ⟨k, x', s₂, isNext, beginning, failed⟩ := ih.1 rest
        exact ⟨k + 1, x', s₂, isNext, (exec_bind_of_ok first _).trans beginning, failed⟩
    · rintro ⟨_ | k, x', s₂, isNext, beginning, failed⟩
      · cases isNext
        cases beginning
        exact exec_bind_of_error failed _
      · obtain ⟨_, s₁, first, beginning⟩ := exists_of_exec_bind_eq_ok (m := f x)
          (f := fun _ => (xs.take k).forM f) beginning
        rw [exec_bind_of_ok first]
        exact ih.2 ⟨k, x', s₂, isNext, beginning, failed⟩

end Step

namespace Session

/-! ## Declarations -/

/-- The variants that a declaration has at a bench, once it is prepared. -/
def variants (declaration : Declaration) (body : Tree) (guards : List Tree) (b : Bench) :
    List Tree.Variant :=
  Tree.expandDefaults declaration.name declaration.params guards body b.session.config.stem

/-- A declaration is stopped at a variant that is refused, and leaves what those before it leave. -/
def Stops (store : Store) (declaration : Declaration) (spliced : Bool) (b : Bench) (error : Error)
    (b' : Bench) : Prop :=
  ∃ body guards units k v admissions,
    prepareAll store b.session.draft declaration = .ok (body, guards, units) ∧
    (variants declaration body guards b)[k]? = some v ∧
    exec (((variants declaration body guards b).take k).mapM
      (declareVariant declaration units spliced)) b = (.ok admissions, b') ∧
    exec (declareVariant declaration units spliced v) b' = (.error error, b')

/-- The variants fail at one that is refused, which changes nothing itself. -/
theorem declareVariants_stop {b b' : Bench} (loaded : b.Loaded) {declaration : Declaration}
    {units : NameSet} {spliced : Bool} {vs : List Tree.Variant} (proper : ∀ v ∈ vs, v.Proper)
    {error : Error} :
    exec (vs.mapM (declareVariant declaration units spliced)) b = (.error error, b') ↔
      ∃ (k : Nat) (v : Tree.Variant) (admissions : List Admission), vs[k]? = some v ∧
        exec ((vs.take k).mapM (declareVariant declaration units spliced)) b =
          (.ok admissions, b') ∧
        exec (declareVariant declaration units spliced v) b' = (.error error, b') := by
  rw [Step.exec_mapM_eq_error_iff]
  constructor
  · rintro ⟨k, v, admissions, b₁, isNext, beginning, refused⟩
    obtain ⟨admissions', b₂, runs, outcome⟩ := declareVariants_runs loaded declaration units spliced
      (vs.take k) fun v member => proper v (List.mem_of_mem_take member)
    have loaded₁ : b₁.Loaded := by
      rcases outcome with ⟨done, -⟩ | ⟨error', failed, -⟩
      · cases done.symm.trans beginning
        exact runs.loaded
      · cases failed.symm.trans beginning
    rcases declareVariant_runs loaded₁ declaration units spliced
      (proper v (List.mem_of_getElem? isNext)) with ⟨error', failed, -⟩ | ⟨admission, b₃, done, -⟩
    · cases failed.symm.trans refused
      exact ⟨k, v, admissions, isNext, beginning, refused⟩
    · cases done.symm.trans refused
  · rintro ⟨k, v, admissions, isNext, beginning, refused⟩
    exact ⟨k, v, admissions, b', isNext, beginning, refused⟩

/-- **A declaration fails** if it cannot be prepared, or where it is stopped. -/
theorem exec_define_eq_error_iff {b b' : Bench} (loaded : b.Loaded) {store : Store}
    {declaration : Declaration} {spliced : Bool} {error : Error} :
    exec (define store declaration spliced) b = (.error error, b') ↔
      (b' = b ∧ prepareAll store b.session.draft declaration = .error error) ∨
        Stops store declaration spliced b error b' := by
  unfold define
  rw [Step.exec_get_bind]
  cases prepared : prepareAll store b.session.draft declaration with
  | error error' =>
    rw [Step.exec_lift_error_bind]
    constructor
    · intro failed
      cases failed
      exact .inl ⟨rfl, rfl⟩
    · rintro (⟨rfl, same⟩ | ⟨_, _, _, _, _, _, prepared', -⟩)
      · cases same
        rfl
      · cases prepared.symm.trans prepared'
  | ok result =>
    obtain ⟨body, guards, units⟩ := result
    obtain ⟨isBody, areGuards⟩ := isExpression_of_prepareAll prepared
    have proper : ∀ v ∈ variants declaration body guards b, v.Proper := fun v member =>
      Tree.proper_of_mem_expandDefaults isBody areGuards member
    have stop : exec ((variants declaration body guards b).mapM
        (declareVariant declaration units spliced)) b = (.error error, b') ↔ _ :=
      declareVariants_stop loaded proper
    rw [Step.exec_lift_ok_bind, Step.exec_bind_eq_error_iff]
    constructor
    · rintro (failed | ⟨admissions, b₁, done, failed⟩)
      · obtain ⟨k, v, admissions, isNext, beginning, refused⟩ := stop.1 failed
        exact .inr ⟨body, guards, units, k, v, admissions, prepared, isNext, beginning, refused⟩
      · -- What follows the variants does not fail.
        obtain ⟨admissions', b₂, runs, outcome⟩ :=
          declareVariants_runs loaded declaration units spliced _ proper
        rcases outcome with ⟨done', -⟩ | ⟨error', failed', -⟩
        swap
        · cases failed'.symm.trans done
        cases done'.symm.trans done
        obtain ⟨b₃, required, -⟩ := exec_require runs.loaded units.toList
        rw [runs.unit_eq] at required
        split at failed
        · rw [Step.exec_bind_of_ok required] at failed
          cases failed
        · cases failed
    · rintro (⟨-, refused⟩ | ⟨_, _, _, k, v, admissions, prepared', isNext, beginning, refused⟩)
      · cases refused
      · cases prepared.symm.trans prepared'
        exact .inl (stop.2 ⟨k, v, admissions, isNext, beginning, refused⟩)

/-! ## Granting what has been recorded -/

/-- What an open draft records can be granted. -/
theorem exec_grant_of_recorded {b : Bench} {key : Key} {r : RoutineRecord}
    (writable : b.session.draft.closed = false)
    (recorded : b.session.draft.routines.get? key = some r) :
    exec (grant key) b = (.ok ⟨⟩, b.withDraft { b.session.draft with
      routines := b.session.draft.routines.insert key { r with permitted := true } }) := by
  rw [grant, Bench.exec_updateDraft, Ledger.grant, recorded]
  dsimp only
  rw [Draft.record, Draft.ensureOpen_of_open writable]
  rfl

/-- Every recorded variant of a declaration can be granted. -/
def Grantable (name : String) (d : Draft) (arity : Nat) (admissions : List Admission) : Prop :=
  ∀ (i : Nat) (admission : Admission), admissions[i]? = some admission →
    admission.isRecorded = true →
      d.closed = false ∧ d.routines.contains (Key.ofCount name (arity + i)) = true

/-- Granting what has been recorded never fails. -/
theorem exec_grantRecorded {name : String} {admissions : List Admission} {arity : Nat} {b : Bench}
    (grantable : Grantable name b.session.draft arity admissions) :
    ∃ b', exec (grantRecorded name arity admissions) b = (.ok ⟨⟩, b') := by
  induction admissions generalizing arity b with
  | nil => exact ⟨b, rfl⟩
  | cons admission admissions ih =>
    have later : ∀ {d : Draft}, d.closed = b.session.draft.closed →
        (∀ key, b.session.draft.routines.contains key = true → d.routines.contains key = true) →
        Grantable name d (arity + 1) admissions := by
      intro d closed more i admission' isNext isRecorded
      obtain ⟨writable, recorded⟩ := grantable (i + 1) admission' isNext isRecorded
      rw [closed, Nat.add_assoc, Nat.add_comm 1 i]
      exact ⟨writable, more _ recorded⟩
    unfold grantRecorded
    cases isRecorded : admission.isRecorded with
    | false => exact ih (later rfl fun _ recorded => recorded)
    | true =>
      obtain ⟨writable, recorded⟩ := grantable 0 admission rfl isRecorded
      rw [Nat.add_zero] at recorded
      obtain ⟨r, stored⟩ := Table.contains_iff_exists_get?.1 recorded
      rw [if_pos rfl, Step.exec_bind_of_ok (exec_grant_of_recorded writable stored)]
      refine ih (later rfl fun key recorded => ?_)
      show (Table.insert _ _ _).contains key = true
      rw [Table.contains_insert, recorded, Bool.or_true]

/-- Only closing closes a draft. -/
theorem closed_eq_of_trace {w w' : Writing} {events : List Event} (trace : Trace w events w')
    (writing : ∀ event ∈ events, event ≠ .close) : w'.draft.closed = w.draft.closed :=
  trace.invariant (I := fun v => v.draft.closed = w.draft.closed)
    (fun _ event _ member move same => by
      cases move with
      | close => exact absurd rfl (writing _ member)
      | _ => exact same) rfl

/-- In a closed draft no declaration is recorded. -/
theorem not_recorded_of_closed {w w' : Writing} {events : List Event} (trace : Trace w events w')
    (closed : w.draft.closed = true) {e : Emission} {units : NameSet} {admission : Admission}
    (treated : .declare e units admission ∈ events) : admission.isRecorded = false := by
  induction trace with
  | nil => cases treated
  | cons first rest ih =>
    rcases List.mem_cons.1 treated with rfl | later
    · cases first with
      | declareRecorded _ _ writable => exact absurd (writable.symm.trans closed) Bool.false_ne_true
      | _ => rfl
    · exact ih (first.draft_eq_of_closed closed ▸ closed) later

/-- A declaration that has recorded something leaves the draft open. -/
theorem open_of_define {b b' : Bench} (loaded : b.Loaded) {store : Store}
    {declaration : Declaration} {spliced : Bool} {admissions : List Admission}
    (done : exec (define store declaration spliced) b = (.ok admissions, b')) {i : Nat}
    {admission : Admission} (treated : admissions[i]? = some admission)
    (recorded : admission.isRecorded = true) : b'.session.draft.closed = false := by
  rcases define_runs loaded store declaration spliced with
    ⟨error, -, failed⟩ | ⟨body, guards, units, admissions', vs, b₁, -, -, outcome⟩
  · cases failed.symm.trans done
  rcases outcome with ⟨done', length, runs⟩ | ⟨error, failed, -⟩
  swap
  · cases failed.symm.trans done
  cases done'.symm.trans done
  obtain ⟨w, w', -, ⟨session, -⟩, trace, -⟩ := runs
  have writing : ∀ event ∈ declarations declaration units vs admissions ++ requirement units,
      event ≠ .close := by
    intro event member
    rcases List.mem_append.1 member with member | member
    · obtain ⟨v, -, a, rfl⟩ := exists_of_mem_declarations member
      exact nofun
    · rw [eq_of_mem_requirement member]
      exact nofun
  rw [session]
  refine (closed_eq_of_trace trace writing).trans (Bool.eq_false_iff.2 fun closed => ?_)
  have bound : i < vs.length := length ▸ (List.getElem?_eq_some_iff.1 treated).1
  have listed : .declare (variantEmission declaration vs[i]) units admission ∈
      declarations declaration units vs admissions := by
    refine List.mem_of_getElem? (i := i) ?_
    rw [declarations, List.getElem?_zipWith, List.getElem?_eq_getElem bound, treated]
  exact Bool.false_ne_true ((not_recorded_of_closed trace closed
    (List.mem_append_left _ listed)).symm.trans recorded)

/-- What a declaration has recorded can be granted. -/
theorem grantable_of_define {b b' : Bench} (loaded : b.Loaded) {store : Store}
    {declaration : Declaration} {spliced : Bool} {admissions : List Admission}
    (done : exec (define store declaration spliced) b = (.ok admissions, b')) :
    Grantable declaration.name b'.session.draft (Tree.leastArity declaration.params)
      admissions := by
  obtain ⟨body, guards, units, image, -, length, -, -, declared⟩ := declared_of_define loaded done
  intro i admission treated isRecorded
  have bound := (List.getElem?_eq_some_iff.1 treated).1
  obtain ⟨v, isVariant⟩ : ∃ v, (Tree.expandDefaults declaration.name declaration.params guards body
      b.session.config.stem)[i]? = some v := by
    rw [Tree.getElem?_expandDefaults]
    split
    · exact ⟨_, rfl⟩
    · rw [if_pos (by omega)]
      exact ⟨_, rfl⟩
  obtain ⟨-, recorded⟩ := declared i v admission isVariant treated (by
    rintro rfl
    cases isRecorded)
  refine ⟨open_of_define loaded done treated isRecorded, ?_⟩
  rw [← Tree.arity_of_getElem? isVariant]
  exact Table.contains_iff_exists_get?.2 ⟨_, (recorded isRecorded).1⟩

/-! ## Statements -/

/-- An operation on the draft fails if it is refused, and then changes nothing. -/
theorem exec_updateDraft_eq_error_iff {f : Draft → Except Error Draft} {b b' : Bench}
    {error : Error} :
    exec (Bench.updateDraft f) b = (.error error, b') ↔
      b' = b ∧ f b.session.draft = .error error := by
  rw [Bench.exec_updateDraft]
  cases f b.session.draft with
  | error error' => simp [and_comm, eq_comm]
  | ok d => simp

/-- A statement is refused before it changes anything. -/
inductive Refuses (store : Store) (b : Bench) (error : Error) : Statement → Prop where
  /-- The routine that it grants is not recorded, or the draft is closed. -/
  | grant {key : Key} (refused : Ledger.grant b.session.draft key = .error error) :
      Refuses store b error (.grant key)
  /-- The draft is closed in which it withholds a routine. -/
  | withhold {key : Key} (refused : Ledger.withhold b.session.draft key = .error error) :
      Refuses store b error (.withhold key)
  /-- The routine that it declares cannot be prepared. -/
  | define {declaration : Declaration}
      (refused : prepareAll store b.session.draft declaration = .error error) :
      Refuses store b error (.define declaration)

/-- A statement is refused, and the bench is as it was, or it is a declaration that is stopped. -/
def Halts (store : Store) (spliced : Bool) (statement : Statement) (b : Bench) (error : Error)
    (b' : Bench) : Prop :=
  (b' = b ∧ Refuses store b error statement) ∨
    ∃ declaration, statement = .define declaration ∧ Stops store declaration spliced b error b'

/-- A declaration halts as it fails. -/
theorem halts_define_iff {b b' : Bench} (loaded : b.Loaded) {store : Store}
    {declaration : Declaration} {spliced : Bool} {error : Error} :
    Halts store spliced (.define declaration) b error b' ↔
      exec (define store declaration spliced) b = (.error error, b') := by
  rw [exec_define_eq_error_iff loaded]
  constructor
  · rintro (⟨rfl, refuses⟩ | ⟨declaration', same, stops⟩)
    · cases refuses with
      | define refused => exact .inl ⟨rfl, refused⟩
    · cases same
      exact .inr stops
  · rintro (⟨rfl, refused⟩ | stops)
    · exact .inl ⟨rfl, .define refused⟩
    · exact .inr ⟨declaration, rfl, stops⟩

/-- **A statement fails** where it halts. -/
theorem exec_run_eq_error_iff {b b' : Bench} (loaded : b.Loaded) {store : Store}
    {statement : Statement} {spliced : Bool} {error : Error} :
    exec (run store spliced statement) b = (.error error, b') ↔
      Halts store spliced statement b error b' := by
  cases statement with
  | grant key =>
    show exec (Bench.updateDraft (Ledger.grant · key)) b = _ ↔ _
    rw [exec_updateDraft_eq_error_iff]
    constructor
    · exact fun ⟨same, refused⟩ => .inl ⟨same, .grant refused⟩
    · rintro (⟨same, refuses⟩ | ⟨_, isDefine, -⟩)
      · cases refuses with
        | grant refused => exact ⟨same, refused⟩
      · cases isDefine
  | withhold key =>
    show exec (Bench.updateDraft (Ledger.withhold · key)) b = _ ↔ _
    rw [exec_updateDraft_eq_error_iff]
    constructor
    · exact fun ⟨same, refused⟩ => .inl ⟨same, .withhold refused⟩
    · rintro (⟨same, refuses⟩ | ⟨_, isDefine, -⟩)
      · cases refuses with
        | withhold refused => exact ⟨same, refused⟩
      · cases isDefine
  | define declaration =>
    rw [halts_define_iff loaded]
    unfold run
    refine Step.exec_bind_eq_error_iff.trans (or_iff_left ?_)
    -- What follows the declaration does not fail.
    rintro ⟨admissions, b₁, defined, failed⟩
    obtain ⟨b₂, granted⟩ := exec_grantRecorded (grantable_of_define loaded defined)
    split at failed
    · cases granted.symm.trans failed
    · cases failed

/-! ## Imports -/

/-- The draft of a bench with further imports. -/
def imported (b : Bench) (keys : List Key) (source : String) : Bench :=
  b.withDraft { b.session.draft with
    imports := b.session.draft.imports.insertAll (keys.map fun key => (key, source)) }

/-- An import is stopped at the first key that the source does not pass on, and leaves those before
it, for which the draft was open. -/
def StopsImporting (registry : Registry) (keys : List Key) (b : Bench) (error : Error)
    (b' : Bench) : Prop :=
  ∃ k key, keys[k]? = some key ∧ registry.routines.contains key = false ∧
    (∀ earlier ∈ keys.take k, registry.routines.contains earlier = true) ∧
    (0 < k → b.session.draft.closed = false) ∧
    error = .unknownRoutine registry.unit key ∧ b' = imported b (keys.take k) registry.unit

/-- An import is refused before it changes anything. -/
inductive RefusesImport (store : Store) (source : Value) (keys : Option (List Key)) (b : Bench)
    (error : Error) : Prop where
  /-- The source is not published. -/
  | unpublished (refused : store.requireValue source b.unit = .error error)
  /-- The draft is closed, and there is a key to import. -/
  | closed {registry : Registry} {key : Key}
      (published : store.requireValue source b.unit = .ok registry)
      (first : (keys.getD registry.routines.keys).head? = some key)
      (known : registry.routines.contains key = true) (isClosed : b.session.draft.closed = true)
      (isError : error = .registryClosed b.session.draft.unit)

/-- One key is imported from a source that passes it on, into an open draft. -/
theorem exec_importRoutine_eq (registry : Registry) (key : Key) (b : Bench) :
    exec (importRoutine registry key) b =
      if registry.routines.contains key then
        if b.session.draft.closed then (.error (.registryClosed b.session.draft.unit), b)
        else (.ok ⟨⟩, imported b [key] registry.unit)
      else (.error (.unknownRoutine registry.unit key), b) := by
  unfold importRoutine
  cases registry.routines.contains key with
  | false => rfl
  | true =>
    rw [if_pos rfl, if_pos rfl, Bench.exec_updateDraft, Draft.addImport, Draft.ensureOpen]
    cases b.session.draft.closed <;> rfl

/-- Keys are imported if the source passes on all of them, into a draft that is open. -/
theorem exec_importEach_eq_ok_iff {registry : Registry} {keys : List Key} {b b' : Bench} :
    exec (keys.forM (importRoutine registry)) b = (.ok ⟨⟩, b') ↔
      (∀ key ∈ keys, registry.routines.contains key = true) ∧
        (keys ≠ [] → b.session.draft.closed = false) ∧ b' = imported b keys registry.unit := by
  induction keys generalizing b with
  | nil =>
    constructor
    · intro done
      cases done
      exact ⟨nofun, fun nonempty => absurd rfl nonempty, rfl⟩
    · rintro ⟨-, -, rfl⟩
      rfl
  | cons key keys ih =>
    show exec (importRoutine registry key >>= fun _ => keys.forM (importRoutine registry)) b = _ ↔ _
    rw [Step.exec_bind, exec_importRoutine_eq, List.forall_mem_cons]
    cases registry.routines.contains key with
    | false => simp
    | true =>
      cases closed : b.session.draft.closed with
      | true => simp
      | false =>
        simp only [if_true, Bool.false_eq_true, if_false, ih]
        constructor
        · rintro ⟨known, -, rfl⟩
          exact ⟨⟨trivial, known⟩, fun _ => trivial, rfl⟩
        · rintro ⟨⟨-, known⟩, -, rfl⟩
          exact ⟨known, fun _ => closed, rfl⟩

/-- **Imports of listed keys fail** at the first one, as the draft is closed, or where they are
stopped. -/
theorem exec_importEach_eq_error_iff {registry : Registry} {keys : List Key} {b b' : Bench}
    {error : Error} :
    exec (keys.forM (importRoutine registry)) b = (.error error, b') ↔
      (b' = b ∧ ∃ key, keys.head? = some key ∧ registry.routines.contains key = true ∧
          b.session.draft.closed = true ∧ error = .registryClosed b.session.draft.unit) ∨
        StopsImporting registry keys b error b' := by
  rw [Step.exec_forM_eq_error_iff]
  constructor
  · rintro ⟨k, key, b₁, isNext, beginning, failed⟩
    obtain ⟨known, isOpen, rfl⟩ := exec_importEach_eq_ok_iff.1 beginning
    have writable : 0 < k → b.session.draft.closed = false := fun positive => isOpen fun none => by
      have bound := (List.getElem?_eq_some_iff.1 isNext).1
      rw [List.take_eq_nil_iff] at none
      rcases none with rfl | rfl
      · exact absurd positive (Nat.lt_irrefl 0)
      · cases isNext
    rw [exec_importRoutine_eq] at failed
    split at failed
    · next passedOn =>
      split at failed
      · next closed =>
        -- Only the first key can find the draft closed.
        obtain rfl : k = 0 := by
          by_contra positive
          exact absurd (closed.symm.trans (writable (Nat.pos_of_ne_zero positive)))
            Bool.false_ne_true.symm
        cases failed
        exact .inl ⟨rfl, key, List.head?_eq_getElem? ▸ isNext, passedOn, closed, rfl⟩
      · cases failed
    · next unknown =>
      cases failed
      exact .inr ⟨k, key, isNext, Bool.eq_false_iff.2 unknown, known, writable, rfl, rfl⟩
  · rintro (⟨rfl, key, first, passedOn, closed, rfl⟩ |
      ⟨k, key, isNext, unknown, known, writable, rfl, rfl⟩)
    · refine ⟨0, key, b', List.head?_eq_getElem? ▸ first, rfl, ?_⟩
      rw [exec_importRoutine_eq, if_pos passedOn, if_pos closed]
    · refine ⟨k, key, _, isNext, exec_importEach_eq_ok_iff.2 ⟨known, fun nonempty => ?_, rfl⟩, ?_⟩
      · refine writable (Nat.pos_of_ne_zero ?_)
        rintro rfl
        exact nonempty rfl
      · rw [exec_importRoutine_eq, unknown, if_neg Bool.false_ne_true]

/-- All that a source passes on is known to it. -/
theorem not_stopsImporting_keys {registry : Registry} {b b' : Bench} {error : Error} :
    ¬ StopsImporting registry registry.routines.keys b error b' := by
  rintro ⟨k, key, isNext, unknown, -⟩
  have known : registry.routines.contains key = true :=
    (Table.contains_iff_exists_key _ _).2 ⟨key, List.mem_of_getElem? isNext, BEq.rfl⟩
  exact absurd (unknown.symm.trans known) Bool.false_ne_true

/-- **An import fails** if it is refused, or where it is stopped at a key that was listed. -/
theorem exec_importRoutines_eq_error_iff {store : Store} {source : Value}
    {keys : Option (List Key)} {b b' : Bench} {error : Error} :
    exec (importRoutines store source keys) b = (.error error, b') ↔
      (b' = b ∧ RefusesImport store source keys b error) ∨
        ∃ unit registry listed, source = .text unit ∧ keys = some listed ∧
          store.get? unit = some registry ∧ StopsImporting registry listed b error b' := by
  unfold importRoutines
  rw [Step.exec_get_bind]
  cases found : store.requireValue source b.unit with
  | error error' =>
    rw [Step.exec_lift_error_bind]
    constructor
    · intro failed
      cases failed
      exact .inl ⟨rfl, .unpublished found⟩
    · rintro (⟨rfl, refused | ⟨published, -⟩⟩ | ⟨unit, registry, _, rfl, -, published, -⟩)
      · cases found.symm.trans refused
        rfl
      · cases found.symm.trans published
      · rw [Store.requireValue, Store.require, published] at found
        cases found
  | ok registry =>
    rw [Step.exec_lift_ok_bind, exec_importEach_eq_error_iff]
    constructor
    · rintro (⟨rfl, key, first, known, closed, rfl⟩ | stops)
      · exact .inl ⟨rfl, .closed found first known closed rfl⟩
      · cases keys with
        | none => exact absurd stops not_stopsImporting_keys
        | some listed =>
          cases source with
          | text unit =>
            refine .inr ⟨unit, registry, listed, rfl, rfl, ?_, stops⟩
            rw [Store.requireValue, Store.require] at found
            split at found <;> cases found
            assumption
          | _ => cases found
    · rintro (⟨rfl, refused | ⟨published, first, known, closed, rfl⟩⟩ |
        ⟨unit, registry', listed, rfl, rfl, published, stops⟩)
      · cases found.symm.trans refused
      · cases found.symm.trans published
        exact .inl ⟨rfl, _, first, known, closed, rfl⟩
      · rw [Store.requireValue, Store.require, published] at found
        cases found
        exact .inr stops

/-! ## Opening an extension -/

/-- Hooks are stopped at a statement that halts, after all those before it. -/
def StopsSplicing (store : Store) (hooks : List Hook) (b : Bench) (error : Error) (b' : Bench) :
    Prop :=
  ∃ k statement b₁, hooks.flatten[k]? = some statement ∧
    exec ((hooks.flatten.take k).forM (run store true)) b = (.ok ⟨⟩, b₁) ∧
    Halts store true statement b₁ error b'

/-- Hooks are executed one statement after the other. -/
theorem splice_eq_forM (store : Store) (hooks : List Hook) :
    splice store hooks = hooks.flatten.forM (run store true) := by
  induction hooks with
  | nil => rfl
  | cons hook hooks ih =>
    show (hook.forM (run store true) >>= fun _ => splice store hooks) =
      forM (hook ++ hooks.flatten) (run store true)
    rw [List.forM_append, ih]
    rfl

/-- **Hooks fail** where they are stopped. -/
theorem exec_splice_eq_error_iff {b b' : Bench} (loaded : b.Loaded) {store : Store}
    {hooks : List Hook} {error : Error} :
    exec (splice store hooks) b = (.error error, b') ↔ StopsSplicing store hooks b error b' := by
  rw [splice_eq_forM, Step.exec_forM_eq_error_iff]
  refine exists_congr fun k => exists_congr fun statement => exists_congr fun b₁ =>
    and_congr_right fun _ => and_congr_right fun beginning => exec_run_eq_error_iff ?_
  have performs : Step.Performs _ ((hooks.flatten.take k).forM (run store true)) :=
    .forM fun statement _ => run_performs store true statement
  obtain ⟨events, runs, -⟩ := performs b loaded
  rw [beginning] at runs
  exact runs.loaded

/-- Putting everything in place is stopped at a statement of a hook, of the first ones or of the
last. -/
def StopsOpening (store : Store) (emissions : EmissionList) (b : Bench) (error : Error)
    (b' : Bench) : Prop :=
  StopsSplicing store emissions.preHooks b error b' ∨
    ∃ b₁ b₂, exec (splice store emissions.preHooks) b = (.ok ⟨⟩, b₁) ∧
      exec (putInPlace emissions) b₁ = (.ok ⟨⟩, b₂) ∧
      StopsSplicing store emissions.postHooks b₂ error b'

/-- **Putting everything in place fails** where it is stopped. -/
theorem exec_materialize_eq_error_iff {b b' : Bench} (loaded : b.Loaded) {store : Store}
    {emissions : EmissionList} {error : Error} :
    exec (materialize store emissions) b = (.error error, b') ↔
      StopsOpening store emissions b error b' := by
  rw [exec_materialize, Step.exec_bind_eq_error_iff, exec_splice_eq_error_iff loaded]
  refine or_congr_right ⟨?_, ?_⟩
  · rintro ⟨_, b₁, spliced, failed⟩
    obtain ⟨events, runs, -⟩ := splice_performs store emissions.preHooks b loaded
    rw [spliced] at runs
    obtain ⟨b₂, put, runs₂⟩ := putInPlace_runs runs.loaded emissions
    rw [Step.exec_bind_of_ok put] at failed
    exact ⟨b₁, b₂, spliced, put, (exec_splice_eq_error_iff runs₂.loaded).1 failed⟩
  · rintro ⟨b₁, b₂, spliced, put, stops⟩
    obtain ⟨events, runs, -⟩ := splice_performs store emissions.preHooks b loaded
    rw [spliced] at runs
    obtain ⟨b₃, put', runs₂⟩ := putInPlace_runs runs.loaded emissions
    cases put'.symm.trans put
    refine ⟨⟨⟩, b₁, spliced, ?_⟩
    rw [Step.exec_bind_of_ok put]
    exact (exec_splice_eq_error_iff runs₂.loaded).2 stops

end Session

end Heredity
