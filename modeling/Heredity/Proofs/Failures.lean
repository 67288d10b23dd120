import Heredity.Proofs.Trees
import Heredity.Session

/-!
# Failures and their causes

Some errors say that a unit cannot be had: it is not published, it is not loaded, or units need each
other in a cycle.  One is that of a declaration at a locked key, which depends on the policy.  All
others are about what a unit itself says.  Which computations of a session can fail in which way is
told here.

* `Error.isUnresolved`, `Error.isInert`, `Error.isOwn` — the three groups of errors.
* `Fails` — whatever a computation fails with has a property, with one rule for each way of putting
  computations together.
* `fails_prepareAll`, `fails_assess`, `fails_resolve`, … — the computations, for every property that
  the errors of the last group have.
* `Served` — a computation does not fail for want of a unit.

Only two of the computations need a unit: preparing a declaration looks the base up, and importing
looks the source up.  Only assessing a declaration asks for the policy.
-/

namespace Heredity

/-- Whether an error says that a unit cannot be had: it is not published, not loaded, or part of a
cycle. -/
def Error.isUnresolved : Error → Bool
  | .unresolvedBase .. => true
  | .notLoaded _ => true
  | .requirementsNotLoaded .. => true
  | .cycle _ => true
  | _ => false

/-- Whether an error is that of a declaration at a locked key. -/
def Error.isInert : Error → Bool
  | .inertOverride .. => true
  | _ => false

/-- Whether an error is neither for want of a unit nor that of a locked key. -/
def Error.isOwn (e : Error) : Bool := !e.isUnresolved && !e.isInert

theorem Error.isUnresolved_of_isOwn (e : Error) (own : e.isOwn = true) :
    e.isUnresolved = false := by
  rw [isOwn, Bool.and_eq_true, Bool.not_eq_true', Bool.not_eq_true'] at own
  exact own.1

theorem Error.isInert_of_isOwn (e : Error) (own : e.isOwn = true) : e.isInert = false := by
  rw [isOwn, Bool.and_eq_true, Bool.not_eq_true', Bool.not_eq_true'] at own
  exact own.2

/-- Whatever a computation fails with has a property. -/
def Fails {α : Type} (P : Error → Prop) (r : Except Error α) : Prop := ∀ e, r = .error e → P e

/-- A computation does not fail for want of a unit. -/
def Served {α : Type} (r : Except Error α) : Prop := ∀ e, r = .error e → e.isUnresolved = false

namespace Fails

variable {α β : Type} {P : Error → Prop}

theorem ok (a : α) : Fails P (.ok a) := fun _ failed => nomatch failed

theorem error {e : Error} (h : P e) : Fails P (.error e : Except Error α) := by
  intro _ failed
  cases failed
  exact h

theorem bind {r : Except Error α} {f : α → Except Error β} (h : Fails P r)
    (h' : ∀ a, r = .ok a → Fails P (f a)) : Fails P (r >>= f) := by
  cases r with
  | error e => exact error (h e rfl)
  | ok a => exact h' a rfl

theorem forM {f : α → Except Error Unit} {xs : List α} (h : ∀ x ∈ xs, Fails P (f x)) :
    Fails P (xs.forM f) := by
  induction xs with
  | nil => exact ok _
  | cons x xs ih =>
    exact (h x List.mem_cons_self).bind fun _ _ => ih fun y hy => h y (List.mem_cons_of_mem x hy)

theorem mapM {f : α → Except Error β} {xs : List α} (h : ∀ x ∈ xs, Fails P (f x)) :
    Fails P (xs.mapM f) := by
  induction xs with
  | nil => exact ok _
  | cons x xs ih =>
    rw [List.mapM_cons]
    refine (h x List.mem_cons_self).bind fun _ _ => ?_
    exact (ih fun y hy => h y (List.mem_cons_of_mem x hy)).bind fun _ _ => ok _

end Fails

namespace Served

variable {α : Type}

theorem ok (a : α) : Served (.ok a) := Fails.ok a

theorem error {e : Error} (h : e.isUnresolved = false) : Served (.error e : Except Error α) :=
  Fails.error h

end Served

section Computations

variable {P : Error → Prop} (own : ∀ e : Error, e.isOwn = true → P e)
include own

/-- Faults of operations on values have nothing to do with units and keys. -/
theorem fails_mapError_fault {α : Type} (r : Except Fault α) :
    Fails P (r.mapError Error.fault) := by
  cases r with
  | error fault => exact .error (own _ rfl)
  | ok a => exact .ok a

/-! ## Expressions -/

namespace Tree

theorem fails_expression (t : Tree) : Fails P t.expression := by
  unfold expression
  split
  · exact .ok t
  · exact .error (own _ rfl)

omit own in
theorem fails_mapChildrenM {m : Tree → Except Error Tree} {t : Tree}
    (h : ∀ c ∈ t.children, Fails P (m c)) : Fails P (t.mapChildrenM m) := by
  rw [mapChildrenM_eq_node, map_eq_pure_bind]
  exact (Fails.mapM h).bind fun _ _ => .ok _

omit own in
theorem fails_transformM {m : Tree → Except Error Tree} (h : ∀ t, Fails P (m t)) (t : Tree) :
    Fails P (transformM m t) := by
  induction t using induct with
  | step t ih =>
    rw [transformM_eq]
    exact (fails_mapChildrenM ih).bind fun _ _ => h _

theorem fails_bindBase (name : String) (base : Option String) (t : Tree) :
    Fails P (t.bindBase name base) := by
  refine (fails_transformM (fun t => ?_) t).bind fun _ _ => fails_expression own _
  unfold bindBaseNode
  split
  · exact .ok _
  · split
    · exact .error (own _ rfl)
    · exact .ok _

theorem fails_qualify (imports : Table Key String) (t : Tree) : Fails P (t.qualify imports) :=
  (fails_expression own _).bind fun _ _ => .ok _

end Tree

/-! ## Declarations -/

namespace Session

variable {store : Store} {d : Draft}

/-- Preparing looks nothing up but the base. -/
theorem fails_prepareAll
    (lookup : ∀ base, d.base = some base → Fails P (store.require base d.unit))
    (declaration : Declaration) : Fails P (prepareAll store d declaration) := by
  have prepared : ∀ expr, Fails P (prepare store d declaration.name expr) := by
    intro expr
    have checked : Fails P (checkSuperCalls store d declaration.name expr) := by
      refine .forM fun n _ => ?_
      unfold checkSuperCall
      split
      · exact .error (own _ rfl)
      · next base isBase =>
        refine (lookup base isBase).bind fun _ _ => ?_
        split
        · exact .ok _
        · exact .error (own _ rfl)
    refine checked.bind fun _ _ => ?_
    exact (Tree.fails_bindBase own _ _ _).bind fun _ _ => Tree.fails_qualify own _ _
  refine (prepared _).bind fun _ _ => ?_
  exact (Fails.mapM fun guard _ => prepared guard).bind fun _ _ => .ok _

end Session

/-! ## Drafts -/

namespace Draft

theorem fails_ensureOpen (d : Draft) : Fails P d.ensureOpen := by
  unfold ensureOpen
  split
  · exact .error (own _ rfl)
  · exact .ok d

/-- Writing a draft fails only if it is closed. -/
theorem fails_write {α : Type} (d : Draft) (f : Draft → α) :
    Fails P (d.ensureOpen >>= fun d => pure (f d)) :=
  (d.fails_ensureOpen own).bind fun _ _ => .ok _

theorem fails_close (d : Draft) : Fails P d.close := by
  refine (d.fails_ensureOpen own).bind fun d _ => ?_
  split
  · exact .error (own _ rfl)
  · exact .ok _

end Draft

namespace Ledger

theorem fails_grant (d : Draft) (key : Key) : Fails P (grant d key) := by
  unfold grant
  split
  · exact .error (own _ rfl)
  · exact d.fails_write own _

theorem fails_withhold (d : Draft) (key : Key) : Fails P (withhold d key) :=
  (d.fails_write own _).bind fun result _ => result.2.fails_write own _

omit own in
/-- A declaration is refused only at a locked key. -/
theorem fails_assess (l : Ledger) (d : Draft) (key : Key) (spliced : Bool)
    (refusal : P (.inertOverride d.unit key)) : Fails P (l.assess d key spliced) := by
  unfold assess
  split
  · exact .ok _
  · split
    · exact .ok _
    · split
      · exact .ok _
      · unfold refuseInert
        split
        · exact .ok _
        · split
          · exact .error refusal
          · exact .ok _

end Ledger

/-! ## Inheritance -/

theorem fails_inheritRoutine (config : Config) (base : Registry) (key : Key) (r : RoutineRecord) :
    Fails P (inheritRoutine config base key r) := by
  unfold inheritRoutine
  split
  · exact .ok _
  · refine (Tree.fails_qualify own _ _).bind fun _ _ => ?_
    exact (Fails.mapM fun guard _ => Tree.fails_qualify own _ guard).bind fun _ _ => .ok _

/-- Resolution is given the registry of the base, and looks nothing up. -/
theorem fails_resolve (base : Registry) (fields : Value) (unit : String) (config : Config) :
    Fails P (resolve base fields unit config) := by
  refine (fails_mapError_fault own _).bind fun _ _ => ?_
  refine Fails.bind (.mapM fun e _ => ?_) fun _ _ => .ok _
  exact (fails_inheritRoutine own config base e.1 e.2).bind fun _ _ => .ok _

end Computations

/-! ## Without want of a unit -/

theorem Served.mapError_fault {α : Type} (r : Except Fault α) : Served (r.mapError Error.fault) :=
  fails_mapError_fault Error.isUnresolved_of_isOwn r

theorem Session.served_prepareAll {store : Store} {d : Draft}
    (published : ∀ base, d.base = some base → ∃ r, store.get? base = some r)
    (declaration : Declaration) : Served (prepareAll store d declaration) := by
  refine fails_prepareAll Error.isUnresolved_of_isOwn (fun base isBase => ?_) declaration
  obtain ⟨registry, found⟩ := published base isBase
  rw [Store.require, found]
  exact .ok registry

theorem Draft.served_write {α : Type} (d : Draft) (f : Draft → α) :
    Served (d.ensureOpen >>= fun d => pure (f d)) :=
  d.fails_write Error.isUnresolved_of_isOwn f

theorem Draft.served_close (d : Draft) : Served d.close :=
  d.fails_close Error.isUnresolved_of_isOwn

theorem Ledger.served_grant (d : Draft) (key : Key) : Served (grant d key) :=
  fails_grant Error.isUnresolved_of_isOwn d key

theorem Ledger.served_withhold (d : Draft) (key : Key) : Served (withhold d key) :=
  fails_withhold Error.isUnresolved_of_isOwn d key

theorem Ledger.served_assess (l : Ledger) (d : Draft) (key : Key) (spliced : Bool) :
    Served (l.assess d key spliced) :=
  l.fails_assess d key spliced rfl

theorem served_resolve (base : Registry) (fields : Value) (unit : String) (config : Config) :
    Served (resolve base fields unit config) :=
  fails_resolve Error.isUnresolved_of_isOwn base fields unit config

end Heredity
