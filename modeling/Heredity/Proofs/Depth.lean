import Heredity.Evaluation

/-!
# The bound on the depth

A larger bound on the depth of nesting changes nothing but calls that were too deep.

* `Below` — an outcome that is too deep, or equal to another one.
* `Below.bind`, `Below.mapM` — what is built from such outcomes is related in the same way.
* `invokeWith_eq` — a call step by step.
* `eval_below_succ` — one more level of depth.
* `eval_below`, `callWithin_below` — any larger bound.
* `Answers.unique` — a call has one outcome.

Evaluation is an argument of `invokeWith`, so its lemma is about any two evaluators, and the only
induction is the one on the depth.
-/

namespace Heredity

/-- **Approximation.**  An outcome is too deep, or it is the other one. -/
def Below {α : Type} (x y : Except Error α) : Prop := x = .error .tooDeep ∨ x = y

namespace Below

variable {α β : Type} {x y z : Except Error α}

theorem refl (x : Except Error α) : Below x x := .inr rfl

theorem trans (h : Below x y) (h' : Below y z) : Below x z := by
  rcases h with deep | rfl
  · exact .inl deep
  · exact h'

/-- An outcome that is not too deep is the other one. -/
theorem eq (h : Below x y) (deep : x ≠ .error .tooDeep) : x = y := h.resolve_left deep

theorem bind {f g : α → Except Error β} (h : Below x y) (h' : ∀ a, Below (f a) (g a)) :
    Below (x >>= f) (y >>= g) := by
  rcases h with rfl | rfl
  · exact .inl rfl
  · cases x with
    | error e => exact .refl _
    | ok a => exact h' a

theorem mapM {f g : α → Except Error β} {xs : List α} (h : ∀ x ∈ xs, Below (f x) (g x)) :
    Below (xs.mapM f) (xs.mapM g) := by
  induction xs with
  | nil => exact .refl _
  | cons x xs ih =>
    rw [List.mapM_cons, List.mapM_cons]
    refine (h x List.mem_cons_self).bind fun value => ?_
    exact (ih fun y hy => h y (List.mem_cons_of_mem x hy)).bind fun _ => .refl _

end Below

namespace Program

/-- The steps of a call: the image, the routine, the match, the guards, the body. -/
theorem invokeWith_eq (evaluate : Tree → Env → String → Except Error Value) (p : Program)
    (unit name : String) (args : List Value) (caller : Option String) :
    invokeWith evaluate p unit name args caller =
      p.image unit >>= fun image =>
      callee image unit (Key.ofCount name args.length) caller >>= fun routine =>
      Tree.matchAll routine.params args ∅ >>= fun result =>
      if result.1 then
        guardsHold (fun guard => evaluate guard result.2 unit) routine.guards >>= fun accepted =>
        if accepted then evaluate routine.body result.2 unit
        else .error (.guardsReject unit (Key.ofCount name args.length) args)
      else .error (.noMatch unit (Key.ofCount name args.length) args) := by
  unfold invokeWith
  refine bind_congr fun image => bind_congr fun routine => bind_congr fun result => ?_
  obtain ⟨matched, env⟩ := result
  cases matched with
  | false => rfl
  | true =>
    refine bind_congr fun accepted => ?_
    cases accepted <;> rfl

theorem eval_primitive (p : Program) (depth : Nat) (symbol : String) (args : List Tree) (env : Env)
    (unit : String) :
    p.eval (depth + 1) (.primitive symbol args) env unit =
      match Operation.ofSymbol? symbol with
      | none => .error (.unknownOperation symbol)
      | some operation => (args.mapM fun arg => p.eval depth arg env unit) >>= fun values =>
        (operation.apply values).mapError .fault := rfl

theorem guardsHold_below {f g : Tree → Except Error Value} (h : ∀ t, Below (f t) (g t))
    (guards : List Tree) : Below (guardsHold f guards) (guardsHold g guards) := by
  induction guards with
  | nil => exact .refl _
  | cons guard guards ih =>
    refine (h guard).bind fun value => ?_
    split
    · exact ih
    · exact .refl _

/-- Calls are related if the evaluation of expressions is. -/
theorem invokeWith_below {f g : Tree → Env → String → Except Error Value}
    (h : ∀ t env unit, Below (f t env unit) (g t env unit)) (p : Program) (unit name : String)
    (args : List Value) (caller : Option String) :
    Below (invokeWith f p unit name args caller) (invokeWith g p unit name args caller) := by
  rw [invokeWith_eq, invokeWith_eq]
  refine (Below.refl _).bind fun image => (Below.refl _).bind fun routine => ?_
  refine (Below.refl _).bind fun result => ?_
  split
  · refine (guardsHold_below (fun guard => h guard _ unit) _).bind fun accepted => ?_
    split
    · exact h _ _ _
    · exact .refl _
  · exact .refl _

/-- **One more level.** -/
theorem eval_below_succ (p : Program) (depth : Nat) (t : Tree) (env : Env) (unit : String) :
    Below (p.eval depth t env unit) (p.eval (depth + 1) t env unit) := by
  induction depth generalizing t env unit with
  | zero => exact .inl rfl
  | succ depth ih =>
    have each : ∀ ts : List Tree, Below (ts.mapM fun t => p.eval depth t env unit)
        (ts.mapM fun t => p.eval (depth + 1) t env unit) :=
      fun ts => .mapM fun t _ => ih t env unit
    -- The callee is evaluated one level less deep, too, so the hypothesis covers it.
    cases t with
    | call name args =>
      exact (each args).bind fun values => invokeWith_below ih p unit name values _
    | remoteCall target name args =>
      exact (each args).bind fun values => invokeWith_below ih p target name values _
    | primitive symbol args =>
      rw [eval_primitive, eval_primitive]
      cases Operation.ofSymbol? symbol with
      | none => exact .refl _
      | some operation => exact (each args).bind fun values => .refl _
    | fieldAccess subject field => exact (ih subject env unit).bind fun value => .refl _
    | tuple items => exact (each items).bind fun values => .refl _
    | list items => exact (each items).bind fun values => .refl _
    | cond condition thenBranch elseBranch =>
      refine (ih condition env unit).bind fun value => ?_
      split
      · exact ih thenBranch env unit
      · exact ih elseBranch env unit
    | _ => exact .refl _

/-- **Any larger bound** gives the same outcome, unless the smaller one was used up. -/
theorem eval_below (p : Program) {depth depth' : Nat} (le : depth ≤ depth') (t : Tree) (env : Env)
    (unit : String) : Below (p.eval depth t env unit) (p.eval depth' t env unit) := by
  induction le with
  | refl => exact .refl _
  | step _ ih => exact ih.trans (eval_below_succ p _ t env unit)

theorem callWithin_below (p : Program) {depth depth' : Nat} (le : depth ≤ depth')
    (unit name : String) (args : List Value) :
    Below (callWithin depth p unit name args) (callWithin depth' p unit name args) :=
  invokeWith_below (fun t env unit => eval_below p le t env unit) p unit name args none

/-- **A call has one outcome,** however deep it is evaluated. -/
theorem Answers.unique {p : Program} {unit name : String} {args : List Value}
    {outcome outcome' : Except Error Value} (h : p.Answers unit name args outcome)
    (h' : p.Answers unit name args outcome') : outcome = outcome' := by
  obtain ⟨defined, depth, rfl⟩ := h
  obtain ⟨defined', depth', rfl⟩ := h'
  rcases Nat.le_total depth depth' with le | le
  · exact (callWithin_below p le unit name args).eq defined
  · exact ((callWithin_below p le unit name args).eq defined').symm

end Program

end Heredity
