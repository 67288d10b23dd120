import Heredity.Workspace

/-!
# Running steps

A `Step` is a function of a state, but it is written with three layers of monads.  `Step.exec` runs
one, and every way of putting steps together has an equation for it, so later proofs never open the
layers.

* `Step.exec` — the outcome of a step together with the state that it leaves behind.
* `Step.exec_bind` — a step goes on from the state that the first part left, if that part succeeded.
* `Step.Matches` — two steps have the same outcome and lead from related states to related states.
* `exec_updateDraft`, `exec_updateProgram` — the two ways in which a session writes.

A failure keeps the state.  So the equations speak of the pair of outcome and state, never of the
state of successful runs alone.
-/

namespace Heredity

namespace Step

variable {σ α β : Type}

/-- The outcome of a step and the state that it leaves behind. -/
def exec (m : Step σ α) (s : σ) : Except Error α × σ := m.run.run s

@[simp] theorem exec_pure (a : α) (s : σ) : exec (pure a : Step σ α) s = (.ok a, s) := rfl

/-- What follows a failure is not run, and the state stays as the failure left it. -/
theorem exec_bind (m : Step σ α) (f : α → Step σ β) (s : σ) :
    exec (m >>= f) s =
      match exec m s with
      | (.ok a, s') => exec (f a) s'
      | (.error e, s') => (.error e, s') := by
  show (ExceptT.bind m f).run.run s = _
  simp only [ExceptT.bind, ExceptT.run_mk, StateT.run_bind]
  show (match (m.run.run s) with | (r, s') => (ExceptT.bindCont f r).run s') = _
  rw [exec]
  cases m.run.run s with
  | mk r s' => cases r <;> rfl

theorem exec_bind_of_ok {m : Step σ α} {s s' : σ} {a : α} (h : exec m s = (.ok a, s'))
    (f : α → Step σ β) : exec (m >>= f) s = exec (f a) s' := by
  rw [exec_bind, h]

theorem exec_bind_of_error {m : Step σ α} {s s' : σ} {e : Error} (h : exec m s = (.error e, s'))
    (f : α → Step σ β) : exec (m >>= f) s = (.error e, s') := by
  rw [exec_bind, h]

/-- What succeeds has succeeded in both parts. -/
theorem exists_of_exec_bind_eq_ok {m : Step σ α} {f : α → Step σ β} {s s'' : σ} {b : β}
    (h : exec (m >>= f) s = (.ok b, s'')) :
    ∃ a s', exec m s = (.ok a, s') ∧ exec (f a) s' = (.ok b, s'') := by
  rw [exec_bind] at h
  cases first : exec m s with
  | mk r s' =>
    rw [first] at h
    cases r with
    | error e => cases h
    | ok a => exact ⟨a, s', rfl, h⟩

theorem fst_exec_bind_of_error {m : Step σ α} {s : σ} {e : Error} (h : (exec m s).1 = .error e)
    (f : α → Step σ β) : (exec (m >>= f) s).1 = .error e := by
  rw [exec_bind_of_error (Prod.ext h rfl)]

@[simp] theorem exec_throw (e : Error) (s : σ) :
    exec (throw e : Step σ α) s = (.error e, s) := rfl

@[simp] theorem exec_get (s : σ) : exec (get : Step σ σ) s = (.ok s, s) := rfl

@[simp] theorem exec_set (s' s : σ) : exec (set s' : Step σ PUnit) s = (.ok ⟨⟩, s') := rfl

@[simp] theorem exec_modify (f : σ → σ) (s : σ) :
    exec (modify f : Step σ PUnit) s = (.ok ⟨⟩, f s) := rfl

@[simp] theorem exec_lift (r : Except Error α) (s : σ) :
    exec (Bench.lift r : Step σ α) s = (r, s) := rfl

@[simp] theorem exec_get_bind (f : σ → Step σ β) (s : σ) : exec (get >>= f) s = exec (f s) s := rfl

@[simp] theorem exec_lift_ok_bind (a : α) (f : α → Step σ β) (s : σ) :
    exec (Bench.lift (.ok a) >>= f) s = exec (f a) s := rfl

@[simp] theorem exec_lift_error_bind (e : Error) (f : α → Step σ β) (s : σ) :
    exec (Bench.lift (.error e) >>= f) s = (.error e, s) := rfl

@[simp] theorem exec_throw_bind (e : Error) (f : α → Step σ β) (s : σ) :
    exec ((throw e : Step σ α) >>= f) s = (.error e, s) := rfl

/-- What cannot fail is followed by the rest. -/
theorem exec_liftM_bind (m : StateM σ α) (f : α → Step σ β) (s : σ) :
    exec ((liftM m : Step σ α) >>= f) s = exec (f (m.run s).1) (m.run s).2 := rfl

@[simp] theorem exec_set_bind (s' : σ) (f : PUnit → Step σ β) (s : σ) :
    exec (set s' >>= f) s = exec (f ⟨⟩) s' := rfl

@[simp] theorem exec_modify_bind (g : σ → σ) (f : PUnit → Step σ β) (s : σ) :
    exec (modify g >>= f) s = exec (f ⟨⟩) (g s) := rfl

theorem exec_bind_pure (m : Step σ α) (f : α → β) (s : σ) :
    exec (m >>= fun a => Pure.pure (f a)) s = ((exec m s).1.map f, (exec m s).2) := by
  rw [exec_bind]
  cases exec m s with
  | mk result s' => cases result <;> rfl

/-! ### Steps from related states -/

section Related

variable {R : σ → σ → Prop}

/-- From related states, two steps have the same outcome and lead to related states. -/
def Matches (R : σ → σ → Prop) (m m' : Step σ α) : Prop :=
  ∀ ⦃s s' : σ⦄, R s s' → (exec m' s').1 = (exec m s).1 ∧ R (exec m s).2 (exec m' s').2

namespace Matches

theorem pure (a : α) : Matches R (Pure.pure a) (Pure.pure a) := fun _ _ related => ⟨rfl, related⟩

theorem throw_bind (e : Error) (f f' : α → Step σ β) :
    Matches R ((throw e : Step σ α) >>= f) ((throw e : Step σ α) >>= f') :=
  fun _ _ related => ⟨rfl, related⟩

theorem throw (e : Error) : Matches R (MonadExcept.throw e : Step σ α) (MonadExcept.throw e) :=
  fun _ _ related => ⟨rfl, related⟩

/-- Where the first parts have the same outcome, the rest goes on from related states. -/
theorem exec_bind {m m' : Step σ α} {f f' : α → Step σ β} {s s' : σ}
    (first : (exec m' s').1 = (exec m s).1 ∧ R (exec m s).2 (exec m' s').2)
    (rest : ∀ a, Matches R (f a) (f' a)) :
    (exec (m' >>= f') s').1 = (exec (m >>= f) s).1 ∧
      R (exec (m >>= f) s).2 (exec (m' >>= f') s').2 := by
  rw [Step.exec_bind, Step.exec_bind]
  cases outcome : exec m s with
  | mk result s₁ =>
    cases outcome' : exec m' s' with
    | mk result' s₁' =>
      obtain ⟨same, related⟩ := first
      rw [outcome, outcome'] at same related
      cases same
      cases result with
      | error e => exact ⟨rfl, related⟩
      | ok a => exact rest a related

theorem bind {m m' : Step σ α} {f f' : α → Step σ β} (first : Matches R m m')
    (rest : ∀ a, Matches R (f a) (f' a)) : Matches R (m >>= f) (m' >>= f') :=
  fun _ _ related => exec_bind (first related) rest

theorem get_bind {f f' : σ → Step σ α} (h : ∀ s s', R s s' → Matches R (f s) (f' s')) :
    Matches R (get >>= f) (get >>= f') := fun s s' related => h s s' related related

/-- Two results that may differ are lifted where they are both a failure, or are followed by what
matches. -/
theorem lift_bind {r r' : Except Error α} {f f' : α → Step σ β}
    (h : (∃ e, r = .error e ∧ r' = .error e) ∨
      ∃ a a', r = .ok a ∧ r' = .ok a' ∧ Matches R (f a) (f' a')) :
    Matches R (Bench.lift r >>= f) (Bench.lift r' >>= f') := by
  rcases h with ⟨e, rfl, rfl⟩ | ⟨a, a', rfl, rfl, rest⟩
  · exact fun _ _ related => ⟨rfl, related⟩
  · exact rest

theorem set_bind {c c' : σ} {f f' : PUnit → Step σ α} (related : R c c')
    (rest : Matches R (f ⟨⟩) (f' ⟨⟩)) : Matches R (set c >>= f) (set c' >>= f') :=
  fun _ _ _ => rest related

theorem modify {f f' : σ → σ} (h : ∀ s s', R s s' → R (f s) (f' s')) :
    Matches R (modify f) (modify f') := fun s s' related => ⟨rfl, h s s' related⟩

theorem forM {f f' : α → Step σ Unit} {xs : List α} (h : ∀ x ∈ xs, Matches R (f x) (f' x)) :
    Matches R (xs.forM f) (xs.forM f') := by
  induction xs with
  | nil => exact pure _
  | cons x xs ih =>
    exact (h x List.mem_cons_self).bind fun _ => ih fun y hy => h y (List.mem_cons_of_mem x hy)

theorem mapM {f f' : α → Step σ β} {xs : List α} (h : ∀ x ∈ xs, Matches R (f x) (f' x)) :
    Matches R (xs.mapM f) (xs.mapM f') := by
  induction xs with
  | nil => exact pure _
  | cons x xs ih =>
    rw [List.mapM_cons, List.mapM_cons]
    exact (h x List.mem_cons_self).bind fun y =>
      (ih fun z hz => h z (List.mem_cons_of_mem x hz)).bind fun ys => pure (y :: ys)

end Matches

end Related

end Step

namespace Bench

open Step (exec)

/-- Writing the draft changes nothing else, and nothing at all if it is refused. -/
theorem exec_updateDraft (f : Draft → Except Error Draft) (b : Bench) :
    exec (updateDraft f) b =
      match f b.session.draft with
      | .ok d => (.ok ⟨⟩, b.withDraft d)
      | .error e => (.error e, b) := by
  show exec (lift (f b.session.draft) >>= fun d => set (b.withDraft d)) b = _
  cases f b.session.draft <;> rfl

/-- Writing the program changes nothing else, and nothing at all if it is refused. -/
theorem exec_updateProgram (f : Program → Except Error Program) (b : Bench) :
    exec (updateProgram f) b =
      match f b.program with
      | .ok p => (.ok ⟨⟩, { b with program := p })
      | .error e => (.error e, b) := by
  show exec (lift (f b.program) >>= fun p => set { b with program := p }) b = _
  cases f b.program <;> rfl

@[simp] theorem exec_warn (w : Option Warning) (b : Bench) :
    exec (warn w) b = (.ok ⟨⟩, { b with warnings := b.warnings ++ w.toList }) := rfl

end Bench

end Heredity
