import Heredity.Proofs.Depth
import Heredity.Proofs.Failures
import Heredity.Proofs.Matching
import Heredity.Proofs.Preparation

/-!
# The scope of a routine

The variables that a routine may use are those that its parameters bind.  If the guards and the
bodies of all routines of a program keep to that, no call ever meets a variable without a value.

* `Tree.binds` — the names that a pattern has bound whenever it has matched.
* `matchAll_binds` — a match binds them.
* `references_transform`, `references_prepared` — preparing an expression keeps its variables.
* `Tree.ScopedAt` — a routine fits its key, and uses only variables that its parameters bind.
* `Program.Scoped` — all routines of a program do.
* `Program.Scoped.eval_bound`, `Program.Scoped.invokeWith_bound` — evaluation and calls in such a
  program.

**The number of the arguments matters.**  Patterns are matched with arguments pair by pair, until
either list ends, so a routine that is stored at a key of another arity could match without binding
all its names.  That a routine fits its key is therefore part of `Tree.ScopedAt`.
-/

namespace Heredity

namespace Tree

variable {env env' : Env} {value : Value} {name : String}

/-! ## What a match binds -/

mutual

/-- The names that a pattern has bound when it has matched.  The value that an optional one falls
back on takes no part in a match. -/
def binds : Tree → List String
  | .binding name => [name]
  | .alias pattern name => name :: binds pattern
  | .tuplePattern items => bindsAll items
  | .listPattern items => bindsAll items
  | .optional pattern _ => binds pattern
  | _ => []
termination_by structural t => t

/-- The names that patterns have bound when all of them have matched. -/
def bindsAll : List Tree → List String
  | [] => []
  | t :: ts => binds t ++ bindsAll ts
termination_by structural ts => ts

end

theorem bindsAll_eq_flatMap (ts : List Tree) : bindsAll ts = ts.flatMap binds := by
  induction ts with
  | nil => rfl
  | cons t ts ih => rw [bindsAll, ih, List.flatMap_cons]

theorem binds_required (t : Tree) : binds (required t) = binds t := by
  cases t <;> rfl

/-- A pattern with a synthetic name binds what it binds without. -/
theorem binds_subset_withName (name : String) (t : Tree) : binds t ⊆ binds (withName name t) := by
  cases t with
  | wildcard => exact List.nil_subset _
  | _ => exact List.subset_cons_self _ _

theorem mem_binds_of_ownName {t : Tree} (isOwn : ownName? t = some name) : name ∈ binds t := by
  cases t with
  | binding | «alias» =>
    cases isOwn
    exact List.mem_cons_self
  | _ => cases isOwn

theorem matchAll_binds_of {patterns : List Tree}
    (each : ∀ t ∈ patterns, ∀ {value : Value} {env env' : Env},
      matchValue t value env = .ok (true, env') → ∀ x ∈ binds t, ∃ v, env'.get? x = some v)
    {values : List Value} (length : values.length = patterns.length)
    (h : matchAll patterns values env = .ok (true, env')) :
    ∀ x ∈ patterns.flatMap binds, ∃ v, env'.get? x = some v := by
  induction patterns generalizing values env with
  | nil => exact List.forall_mem_nil _
  | cons t patterns ih =>
    cases values with
    | nil => cases length
    | cons value values =>
      obtain ⟨env₁, first, rest⟩ := matchAll_cons_eq_ok h
      intro x member
      rw [List.flatMap_cons, List.mem_append] at member
      rcases member with inFirst | inRest
      · obtain ⟨v, bound⟩ := each t List.mem_cons_self first x inFirst
        exact ⟨v, (matchAll_grows_flatMap rest).keeps bound⟩
      · exact ih (fun t member => each t (List.mem_cons_of_mem _ member)) (Nat.succ.inj length)
          rest x inRest

/-- **A match binds its names.** -/
theorem matchValue_binds {t : Tree} (h : matchValue t value env = .ok (true, env')) :
    ∀ x ∈ binds t, ∃ v, env'.get? x = some v := by
  induction t using induct generalizing value env env' with
  | step t ih =>
    cases t with
    | binding name =>
      intro x member
      obtain rfl := List.mem_singleton.1 member
      obtain ⟨held, isBound, -⟩ := exists_of_bindName (Except.ok.inj h)
      exact ⟨held, isBound⟩
    | tuplePattern items | listPattern items =>
      unfold matchValue at h
      split at h
      · split at h
        · next length =>
          rw [binds, bindsAll_eq_flatMap]
          exact matchAll_binds_of (fun t member => ih t member) length h
        · cases h
      · cases h
    | «alias» pattern name =>
      obtain ⟨env₁, first, bound⟩ := matchValue_alias_eq_ok h
      intro x member
      rcases List.mem_cons.1 member with rfl | inside
      · obtain ⟨held, isBound, -⟩ := exists_of_bindName bound
        exact ⟨held, isBound⟩
      · obtain ⟨v, isBound⟩ := ih pattern List.mem_cons_self first x inside
        have grows : Env.Grows [name] env₁ (bindName name value env₁).2 :=
          bindName_grows List.mem_cons_self
        rw [bound] at grows
        exact ⟨v, grows.keeps isBound⟩
    | optional pattern fallback => exact ih pattern List.mem_cons_self h
    | _ => exact List.forall_mem_nil _

/-- As many patterns as values bind all their names. -/
theorem matchAll_binds {patterns : List Tree} {values : List Value}
    (length : values.length = patterns.length)
    (h : matchAll patterns values env = .ok (true, env')) :
    ∀ x ∈ patterns.flatMap binds, ∃ v, env'.get? x = some v :=
  matchAll_binds_of (fun _ _ => matchValue_binds) length h

/-! ## The variables of a tree -/

/-- The variables of a tree are that of the node and those of its parts. -/
theorem references_eq (t : Tree) :
    references t = t.varName?.toList ++ t.children.flatMap references := by
  rw [references, walk_eq, List.filterMap_cons]
  cases t.varName? with
  | none => exact List.filterMap_flatMap
  | some name => exact congrArg (name :: ·) List.filterMap_flatMap

theorem references_subset_of_mem_children {t c : Tree} (h : c ∈ t.children) :
    references c ⊆ references t := by
  intro x member
  rw [references_eq t]
  exact List.mem_append_right _ (List.mem_flatMap.2 ⟨c, h, member⟩)

/-- A transformation that keeps the parts of nodes, and variables, keeps all variables. -/
theorem references_transform {f : Tree → Tree} (parts : ∀ t, (f t).children = t.children)
    (names : ∀ t, (f t).varName? = t.varName?) (t : Tree) :
    references (transform f t) = references t := by
  induction t using induct with
  | step t ih =>
    have rebuilt : (t.mapChildren (transform f)).varName? = t.varName? := by cases t <;> rfl
    rw [references_eq, references_eq t, transform_eq, names, rebuilt, parts,
      children_mapChildren, List.flatMap_map]
    exact congrArg _ (List.flatMap_congr ih)

theorem references_qualified (imports : Table Key String) (t : Tree) :
    references (qualified imports t) = references t := by
  refine references_transform (children_qualifiedNode imports) (fun t => ?_) t
  unfold qualifiedNode
  split
  · split <;> rfl
  · rfl

theorem references_bound (name : String) (base : Option String) (t : Tree) :
    references (bound name base t) = references t := by
  refine references_transform (children_boundNode name base) (fun t => ?_) t
  cases t with
  | superCall | baseCall => cases base <;> rfl
  | _ => cases base <;> rfl

theorem references_prepared (d : Draft) (name : String) (t : Tree) :
    references (Session.prepared d name t) = references t := by
  rw [Session.prepared, references_qualified, references_bound]

/-! ## Routines in scope -/

/-- A routine fits its key, and uses only variables that its parameters bind. -/
structure ScopedAt (key : Key) (params guards : List Tree) (body : Tree) : Prop where
  /-- The arity is the number of the parameters. -/
  arity : key.arity.toInt = params.length
  /-- The variables of body and guards are bound by the parameters. -/
  bound : ∀ t ∈ body :: guards, references t ⊆ params.flatMap binds

theorem ScopedAt.agree {key key' : Key} {params guards : List Tree} {body : Tree}
    (h : ScopedAt key params guards body) (agrees : (key == key') = true) :
    ScopedAt key' params guards body :=
  ⟨(Key.beq_iff.1 agrees).2 ▸ h.arity, h.bound⟩

end Tree

/-- All routines of an image fit their keys, and use only variables that their parameters bind. -/
def Image.Scoped (image : Image) : Prop :=
  ∀ key e, image.routines.get? key = some e → Tree.ScopedAt key e.params e.guards e.body

/-- All routines of a program do. -/
def Program.Scoped (p : Program) : Prop :=
  ∀ unit image, p.units.get? unit = some image → image.Scoped

/-! ## Evaluation -/

/-- Whether an error says that a variable has no value. -/
def Error.isUnbound : Error → Bool
  | .unboundVariable .. => true
  | _ => false

/-- A computation does not fail for want of the value of a variable. -/
def BoundOutcome {α : Type} (r : Except Error α) : Prop := Fails (·.isUnbound = false) r

/-- All variables of a tree have values. -/
def Env.Covers (env : Env) (t : Tree) : Prop := ∀ x ∈ t.references, ∃ v, env.get? x = some v

theorem Env.Covers.of_mem_children {env : Env} {t c : Tree} (h : env.Covers t)
    (part : c ∈ t.children) : env.Covers c :=
  fun x member => h x (Tree.references_subset_of_mem_children part member)

namespace Tree

/-- A match fails only at what is no pattern. -/
theorem matchAll_bound_of {patterns : List Tree}
    (each : ∀ t ∈ patterns, ∀ value env, BoundOutcome (matchValue t value env))
    (values : List Value) (env : Env) : BoundOutcome (matchAll patterns values env) := by
  induction patterns generalizing values env with
  | nil => exact .ok _
  | cons t patterns ih =>
    cases values with
    | nil => exact .ok _
    | cons value values =>
      rw [matchAll_cons]
      refine (each t List.mem_cons_self value env).bind fun result _ => ?_
      split
      · exact ih (fun t member => each t (List.mem_cons_of_mem _ member)) _ _
      · exact .ok _

theorem matchValue_bound (t : Tree) (value : Value) (env : Env) :
    BoundOutcome (matchValue t value env) := by
  induction t using induct generalizing value env with
  | step t ih =>
    cases t with
    | binding | wildcard | constant => exact .ok _
    | tuplePattern items | listPattern items =>
      unfold matchValue
      split
      · split
        · exact matchAll_bound_of (fun t member => ih t member) _ _
        · exact .ok _
      · exact .ok _
    | «alias» pattern name =>
      rw [matchValue_alias]
      refine (ih pattern List.mem_cons_self value env).bind fun result _ => ?_
      split <;> exact .ok _
    | optional pattern fallback => exact ih pattern List.mem_cons_self value env
    | _ => exact .error rfl

end Tree

namespace Program

variable {p : Program}

theorem guardsHold_bound {evaluate : Tree → Except Error Value} {guards : List Tree}
    (each : ∀ guard ∈ guards, BoundOutcome (evaluate guard)) :
    BoundOutcome (guardsHold evaluate guards) := by
  induction guards with
  | nil => exact .ok _
  | cons guard guards ih =>
    refine (each guard List.mem_cons_self).bind fun value _ => ?_
    split
    · exact ih fun guard member => each guard (List.mem_cons_of_mem _ member)
    · exact .ok _

theorem callee_bound (image : Image) (unit : String) (key : Key) (caller : Option String) :
    BoundOutcome (callee image unit key caller) := by
  unfold callee
  split
  · split
    · exact .error rfl
    · exact .ok _
  · split <;> exact .error rfl

theorem readField_bound (subject : Value) (field : String) :
    BoundOutcome (readField subject field) := by
  unfold readField
  split
  · exact .error rfl
  · split
    · exact .ok _
    · exact .error rfl

/-- **Calls.**  The routine that answers has as many parameters as there are arguments, so all that
its guards and its body use is bound when they are evaluated. -/
theorem Scoped.invokeWith_bound (inScope : p.Scoped)
    {evaluate : Tree → Env → String → Except Error Value}
    (each : ∀ t env unit, env.Covers t → BoundOutcome (evaluate t env unit)) (unit name : String)
    (args : List Value) (caller : Option String) :
    BoundOutcome (invokeWith evaluate p unit name args caller) := by
  rw [invokeWith_eq, image]
  cases held : p.units.get? unit with
  | none => exact .error rfl
  | some image =>
    refine (Fails.ok image).bind fun _ same => ?_
    cases same
    refine (callee_bound image unit _ caller).bind fun e isCallee => ?_
    have stored := inScope unit image held _ e (callee_eq_ok isCallee).1
    have matching : BoundOutcome (Tree.matchAll e.params args ∅) :=
      Tree.matchAll_bound_of (fun t _ => t.matchValue_bound) args ∅
    refine matching.bind fun result isMatch => ?_
    obtain ⟨matched, env⟩ := result
    cases matched with
    | false => exact .error rfl
    | true =>
      have covers : ∀ t ∈ e.body :: e.guards, env.Covers t := fun t member x used =>
        Tree.matchAll_binds (Int.ofNat.inj stored.arity) isMatch x (stored.bound t member used)
      have guarded : BoundOutcome (guardsHold (fun guard => evaluate guard env unit) e.guards) :=
        guardsHold_bound fun guard member =>
          each guard env unit (covers guard (List.mem_cons_of_mem _ member))
      refine guarded.bind fun accepted _ => ?_
      cases accepted with
      | false => exact .error rfl
      | true => exact each e.body env unit (covers e.body List.mem_cons_self)

/-- **Expressions.**  If all variables of an expression have values, its evaluation does not fail
for want of one, in the expression itself and in everything that it calls. -/
theorem Scoped.eval_bound (inScope : p.Scoped) (depth : Nat) (t : Tree) (env : Env) (unit : String)
    (covers : env.Covers t) : BoundOutcome (p.eval depth t env unit) := by
  induction depth generalizing t env unit with
  | zero => exact .error rfl
  | succ depth ih =>
    have part : ∀ c ∈ t.children, BoundOutcome (p.eval depth c env unit) :=
      fun c member => ih c env unit (covers.of_mem_children member)
    have parts : BoundOutcome (t.children.mapM fun c => p.eval depth c env unit) := .mapM part
    -- A callee is evaluated in an environment of its own, and one level less deep.
    have calls : ∀ target name values, BoundOutcome
        (invokeWith (p.eval depth) p target name values (some unit)) :=
      fun target name values => inScope.invokeWith_bound ih target name values _
    cases t with
    | literal | currentUnit => exact .ok _
    | var name =>
      obtain ⟨v, bound⟩ := covers name List.mem_cons_self
      rw [eval, bound]
      exact .ok v
    | call name args => exact parts.bind fun values _ => calls unit name values
    | remoteCall target name args => exact parts.bind fun values _ => calls target name values
    | primitive symbol args =>
      rw [eval_primitive]
      cases Operation.ofSymbol? symbol with
      | none => exact .error rfl
      | some operation =>
        refine Fails.bind parts fun values _ => ?_
        cases operation.apply values with
        | error fault => exact .error rfl
        | ok value => exact .ok value
    | fieldAccess subject field =>
      exact (part subject List.mem_cons_self).bind fun value _ => readField_bound value field
    | tuple items | list items => exact parts.bind fun values _ => .ok _
    | cond condition thenBranch elseBranch =>
      refine (part condition (by simp [Tree.children])).bind fun value _ => ?_
      split
      · exact part thenBranch (by simp [Tree.children])
      · exact part elseBranch (by simp [Tree.children])
    | _ => exact .error rfl

end Program

end Heredity
