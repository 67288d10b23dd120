import Heredity.Proofs.Agreement
import Heredity.Proofs.Depth
import Heredity.Proofs.Matching

/-!
# Calls of inherited routines

A unit that extends another one answers calls of what it inherits as its base does.  This file
proves it of two images in one program, whatever led to them.

* `Transfers` — one computation has every value that another one has.
* `Registry.Portable` — routines that do not depend on the unit that executes them, but for bare
  calls.
* `Program.Inherits` — the image of the base holds what the base records, and that of the extension
  what it inherits of this.
* `Simulates` — expressions have the values in the extension that they have in the base.
* `invokeWith_transfers` — calls do, if expressions do.
* `simulates` — expressions do.

**The extension may go one level deeper.**  A delegated routine is answered by the base, to which
the call is passed on.  One level is enough for all calls together: what a forwarder calls is
evaluated as it is for the base, and not with forwarders again.
-/

namespace Heredity

/-! ## Values that carry over -/

/-- If one computation has a value, the other one has it, too. -/
def Transfers {α : Type} (x y : Except Error α) : Prop := ∀ a, x = .ok a → y = .ok a

namespace Transfers

variable {α β γ : Type} {x y : Except Error α}

theorem refl (x : Except Error α) : Transfers x x := fun _ h => h

theorem of_below (h : Below x y) : Transfers x y := by
  intro a ok
  rcases h with deep | same
  · rw [deep] at ok
    cases ok
  · rw [← same, ok]

theorem trans {z : Except Error α} (h : Transfers x y) (h' : Transfers y z) : Transfers x z :=
  fun a ok => h' a (h a ok)

theorem bind {f g : α → Except Error β} (h : Transfers x y)
    (h' : ∀ a, x = .ok a → Transfers (f a) (g a)) : Transfers (x >>= f) (y >>= g) := by
  intro b ok
  obtain ⟨a, first, rest⟩ := exists_of_bind_eq_ok ok
  rw [h a first]
  exact h' a first b rest

theorem mapM {f : α → Except Error β} {g : γ → Except Error β} {k : α → γ} {xs : List α}
    (h : ∀ x ∈ xs, Transfers (f x) (g (k x))) : Transfers (xs.mapM f) ((xs.map k).mapM g) := by
  induction xs with
  | nil => exact refl _
  | cons x xs ih =>
    rw [List.map_cons, List.mapM_cons, List.mapM_cons]
    refine (h x List.mem_cons_self).bind fun value _ => ?_
    refine (ih fun y member => h y (List.mem_cons_of_mem x member)).bind fun values _ => ?_
    exact refl _

end Transfers

/-! ## Portable routines -/

/-- Whether a node names a unit by itself, or as the unit that executes it. -/
def Tree.namesUnit (unit : String) : Tree → Bool
  | .currentUnit => true
  | .remoteCall target _ _ => target == unit
  | _ => false

/-- **Portable routines.**  No recorded routine names the unit or asks which unit executes it, no
parameter list binds a name twice, and no imported key is recorded. -/
structure Registry.Portable (registry : Registry) : Prop where
  /-- Bodies and guards do not name the unit. -/
  unnamed : ∀ {key r}, registry.routines.get? key = some r →
    ∀ t ∈ r.body :: r.guards, ∀ n ∈ t.walk, n.namesUnit registry.unit = false
  /-- Parameters are linear. -/
  linear : ∀ {key r}, registry.routines.get? key = some r →
    (r.params.flatMap Tree.bindings).Nodup
  /-- A bare call of what is recorded is not a call of what is imported. -/
  unimported : ∀ {key}, registry.imports.contains key = true →
    registry.routines.contains key = false

instance (registry : Registry) : Decidable registry.Portable :=
  decidable_of_iff
    ((∀ r ∈ registry.routines.values,
        (∀ t ∈ r.body :: r.guards, ∀ n ∈ t.walk, n.namesUnit registry.unit = false) ∧
          (r.params.flatMap Tree.bindings).Nodup) ∧
      ∀ key ∈ registry.imports.keys, registry.routines.contains key = false) <| by
    rw [← Table.forall_get?_iff]
    constructor
    · rintro ⟨each, apart⟩
      refine ⟨fun recorded => (each _ _ recorded).1, fun recorded => (each _ _ recorded).2, ?_⟩
      intro key imported
      obtain ⟨key', member, agrees⟩ := (Table.contains_iff_exists_key _ _).1 imported
      rw [← Table.contains_congr _ agrees]
      exact apart key' member
    · intro portable
      refine ⟨fun key r recorded => ⟨portable.unnamed recorded, portable.linear recorded⟩, ?_⟩
      intro key member
      exact portable.unimported ((Table.contains_iff_exists_key _ _).2 ⟨key, member, BEq.rfl⟩)

/-- A tree that an extension can execute instead of the base. -/
structure Tree.Movable (config : Config) (registry : Registry) (t : Tree) : Prop where
  /-- It does not name the base. -/
  unnamed : ∀ n ∈ t.walk, n.namesUnit registry.unit = false
  /-- It calls nothing that only the base has. -/
  independent : t.calls (registry.triggers config) = false

namespace Tree.Movable

variable {config : Config} {registry : Registry} {t : Tree}

theorem of_mem_children (h : t.Movable config registry) {c : Tree} (part : c ∈ t.children) :
    c.Movable config registry := by
  have within := walk_subset_of_mem_children part
  exact ⟨fun n member => h.unnamed n (within member),
    calls_eq_false_of_mem_children h.independent part⟩

end Tree.Movable

namespace Program

/-! ## Calls that succeed -/

section Calls

variable {evaluate : Tree → Env → String → Except Error Value} {p : Program}
  {unit name : String} {args : List Value} {caller : Option String} {image : Image} {e : Emission}
  {env : Env} {value : Value}

theorem guardsHold_iff {f : Tree → Except Error Value} {guards : List Tree} :
    guardsHold f guards = .ok true ↔
      ∀ guard ∈ guards, ∃ value, f guard = .ok value ∧ value.isTruthy = true := by
  induction guards with
  | nil => exact ⟨fun _ _ member => (nomatch member), fun _ => rfl⟩
  | cons guard guards ih =>
    constructor
    · intro holds
      obtain ⟨value, evaluated, rest⟩ := exists_of_bind_eq_ok holds
      cases truthy : value.isTruthy with
      | false =>
        rw [truthy] at rest
        cases rest
      | true =>
        rw [truthy, if_pos rfl] at rest
        exact List.forall_mem_cons.2 ⟨⟨value, evaluated, truthy⟩, ih.1 rest⟩
    · intro each
      obtain ⟨⟨value, evaluated, truthy⟩, rest⟩ := List.forall_mem_cons.1 each
      rw [guardsHold, evaluated]
      show (if value.isTruthy then _ else _) = _
      rw [truthy, if_pos rfl]
      exact ih.2 rest

/-- **A call that succeeds** passes all checks and evaluates the body. -/
theorem invokeWith_eq_ok (h : invokeWith evaluate p unit name args caller = .ok value) :
    ∃ image e env, p.units.get? unit = some image ∧
      callee image unit (Key.ofCount name args.length) caller = .ok e ∧
      Tree.matchAll e.params args ∅ = .ok (true, env) ∧
      guardsHold (fun guard => evaluate guard env unit) e.guards = .ok true ∧
      evaluate e.body env unit = .ok value := by
  rw [invokeWith_eq] at h
  obtain ⟨image, held, h⟩ := exists_of_bind_eq_ok h
  obtain ⟨e, answers, h⟩ := exists_of_bind_eq_ok h
  obtain ⟨⟨matched, env⟩, isMatch, h⟩ := exists_of_bind_eq_ok h
  cases matched with
  | false => cases h
  | true =>
    obtain ⟨accepted, guards, h⟩ := exists_of_bind_eq_ok h
    cases accepted with
    | false => cases h
    | true =>
      refine ⟨image, e, env, ?_, answers, isMatch, guards, h⟩
      rw [Program.image] at held
      split at held
      · next stored => rw [stored, Except.ok.inj held]
      · cases held

theorem invokeWith_of_checks (held : p.units.get? unit = some image)
    (answers : callee image unit (Key.ofCount name args.length) caller = .ok e)
    (isMatch : Tree.matchAll e.params args ∅ = .ok (true, env))
    (guards : guardsHold (fun guard => evaluate guard env unit) e.guards = .ok true) :
    invokeWith evaluate p unit name args caller = evaluate e.body env unit := by
  have loaded : p.image unit = .ok image := by
    rw [Program.image, held]
  rw [invokeWith_eq, loaded]
  show (callee _ _ _ _ >>= _) = _
  rw [answers]
  show (Tree.matchAll _ _ _ >>= _) = _
  rw [isMatch]
  show (guardsHold _ _ >>= _) = _
  rw [guards]
  rfl

/-- A unit answers others with what it answers everyone with. -/
theorem invokeWith_of_other (other : caller ≠ some unit) (caller' : Option String) :
    Transfers (invokeWith evaluate p unit name args caller)
      (invokeWith evaluate p unit name args caller') := by
  intro value ok
  obtain ⟨image, e, env, held, answers, isMatch, guards, body⟩ := invokeWith_eq_ok ok
  obtain ⟨stored, allowed⟩ := callee_eq_ok answers
  have isPublic := allowed.resolve_right other
  rw [invokeWith_of_checks held (callee_of_public stored isPublic _ _) isMatch guards, body]

/-- Variables that have the values of a list evaluate to them. -/
theorem mapM_eval_vars {vars : List Tree} (depth : Nat)
    (h : List.Forall₂ (fun t a => ∃ x, t = .var x ∧ env.get? x = some a) vars args) :
    vars.mapM (fun t => p.eval (depth + 1) t env unit) = .ok args := by
  induction h with
  | nil => rfl
  | @cons t a vars args first _ ih =>
    obtain ⟨x, rfl, bound⟩ := first
    have evaluated : p.eval (depth + 1) (.var x) env unit = .ok a := by
      rw [eval, bound]
    rw [List.mapM_cons, evaluated, ih]
    rfl

end Calls

/-! ## The simulation -/

/-- **The setting.**  In a program, the image of a unit holds what its registry records and nothing
that this does not account for, and the image of another unit holds all that it inherits of it. -/
structure Inherits (p : Program) (config : Config) (registry : Registry) (unit : String) :
    Prop where
  /-- The base has an image, which agrees with the registry. -/
  base : ∃ image, p.units.get? registry.unit = some image ∧
    (∀ {key r}, registry.routines.get? key = some r →
      ∃ e, image.routines.get? key = some e ∧ e.Matches r) ∧
    ∀ {key}, image.routines.contains key = true →
      registry.routines.contains key = true ∨ registry.privateKeys.contains key = true ∨
        registry.withheld.contains key = true
  /-- The extension has an image with what it inherits. -/
  extension : ∃ image, p.units.get? unit = some image ∧
    ∀ {key r}, registry.routines.get? key = some r →
      ∃ key' r' needs, inheritRoutine config registry key r = .ok (r', needs) ∧
        image.routines.get? key = some (Emission.ofRecord key' r')
  /-- A routine has as many parameters as its key says. -/
  sized : ∀ {key r}, registry.routines.get? key = some r →
    (r.params.length : Int) = key.arity.toInt

/-- **Simulation.**  Up to a depth, movable trees have the values in the extension that they have in
the base, where they may be qualified and more names may be bound. -/
def Simulates (p : Program) (config : Config) (registry : Registry) (unit : String)
    (depth : Nat) : Prop :=
  ∀ {t : Tree} {env env' : Env} {imports : Table Key String}, t.Movable config registry →
    (∀ key, imports.contains key = true → registry.imports.contains key = true) →
    (∀ x a, env.get? x = some a → env'.get? x = some a) →
    Transfers (p.eval depth t env registry.unit)
      (p.eval (depth + 1) (t.qualified imports) env' unit)

section Simulation

variable {p : Program} {config : Config} {registry : Registry} {unit : String} {depth : Nat}

/-- A bare call that succeeds in the base is of a recorded routine, if the tree is movable. -/
theorem Inherits.recorded_of_call (inherits : p.Inherits config registry unit)
    (delegates : config.delegateWithheld = true) {name : String} {args : List Tree}
    (movable : (Tree.call name args).Movable config registry) {values : List Value}
    (length : values.length = args.length) {caller : Option String} {value : Value}
    {evaluate : Tree → Env → String → Except Error Value}
    (ok : invokeWith evaluate p registry.unit name values caller = .ok value) :
    registry.routines.contains (Key.ofCount name args.length) = true := by
  obtain ⟨image, held, -, accounted⟩ := inherits.base
  obtain ⟨image', e, env, held', answers, -⟩ := invokeWith_eq_ok ok
  cases held.symm.trans held'
  rw [length] at answers
  have present : image.routines.contains (Key.ofCount name args.length) = true :=
    Table.contains_iff_exists_get?.2 ⟨e, (callee_eq_ok answers).1⟩
  have safe := Tree.contains_eq_false_of_calls movable.independent (Tree.self_mem_walk _)
  exact (Registry.offers_of_not_triggers delegates (accounted present) safe).recorded

/-- Guards of the base that hold there hold in the extension, where they are movable. -/
theorem Simulates.guardsHold (simulates : Simulates p config registry unit depth)
    {guards guards' : List Tree} {env env' : Env} {imports : Table Key String}
    (imported : ∀ key, imports.contains key = true → registry.imports.contains key = true)
    (keeps : ∀ x a, env.get? x = some a → env'.get? x = some a)
    (movable : ∀ guard' ∈ guards', ∃ guard ∈ guards, guard.Movable config registry ∧
      guard' = guard.qualified imports)
    (holds : Program.guardsHold (fun guard => p.eval depth guard env registry.unit) guards =
      .ok true) :
    Program.guardsHold (fun guard => p.eval (depth + 1) guard env' unit) guards' = .ok true := by
  rw [guardsHold_iff] at holds ⊢
  intro guard' member
  obtain ⟨guard, original, isMovable, rfl⟩ := movable guard' member
  obtain ⟨value, evaluated, truthy⟩ := holds guard original
  exact ⟨value, simulates isMovable imported keeps value evaluated, truthy⟩

/-- A call of a recorded routine that succeeds in the base evaluates what is recorded, and succeeds
for every caller. -/
theorem Inherits.evaluates (inherits : p.Inherits config registry unit)
    {evaluate : Tree → Env → String → Except Error Value} {name : String} {args : List Value}
    {caller : Option String} {value : Value} {r : RoutineRecord}
    (recorded : registry.routines.get? (Key.ofCount name args.length) = some r)
    (ok : invokeWith evaluate p registry.unit name args caller = .ok value) :
    ∃ env, Tree.matchAll r.params args ∅ = .ok (true, env) ∧
      Program.guardsHold (fun guard => evaluate guard env registry.unit) r.guards = .ok true ∧
      evaluate r.body env registry.unit = .ok value ∧
      ∀ caller, invokeWith evaluate p registry.unit name args caller = .ok value := by
  obtain ⟨image, held, present, -⟩ := inherits.base
  obtain ⟨image', e, env, held', answers, isMatch, guards, body⟩ := invokeWith_eq_ok ok
  cases held.symm.trans held'
  obtain ⟨e', stored, carries⟩ := present recorded
  cases stored.symm.trans (callee_eq_ok answers).1
  refine ⟨env, carries.params ▸ isMatch, carries.guards ▸ guards, carries.body ▸ body, ?_⟩
  intro caller
  rw [invokeWith_of_checks held (callee_of_public stored carries.isPublic _ _) isMatch guards]
  exact body

/-- A forwarder has the value of the call that it passes on. -/
theorem eval_forwarder {vars : List Tree} {args : List Value} {env : Env} {base name : String}
    {value : Value}
    (forwards : List.Forall₂ (fun t a => ∃ x, t = .var x ∧ env.get? x = some a) vars args)
    (ok : invokeWith (p.eval (depth + 1)) p base name args (some unit) = .ok value) :
    p.eval (depth + 2) (.remoteCall base name vars) env unit = .ok value := by
  show (vars.mapM (fun t => p.eval (depth + 1) t env unit) >>= fun values =>
    invokeWith (p.eval (depth + 1)) p base name values (some unit)) = _
  rw [mapM_eval_vars depth forwards]
  exact ok

/-- **One call.**  If expressions are simulated, so are calls of what the base records. -/
theorem invokeWith_transfers (inherits : p.Inherits config registry unit)
    (portable : registry.Portable) (simulates : Simulates p config registry unit depth)
    {name : String} {args : List Value}
    (recorded : registry.routines.contains (Key.ofCount name args.length) = true)
    (caller caller' : Option String) :
    Transfers (invokeWith (p.eval depth) p registry.unit name args caller)
      (invokeWith (p.eval (depth + 1)) p unit name args caller') := by
  intro value ok
  obtain ⟨r, recorded⟩ := Table.contains_iff_exists_get?.1 recorded
  obtain ⟨env, isMatch, guards, body, answers⟩ := inherits.evaluates recorded ok
  obtain ⟨image, held, inherited⟩ := inherits.extension
  obtain ⟨key', r', needs, becomes, stored⟩ := inherited recorded
  have answers' := callee_of_public stored rfl unit caller'
  have unnamed := portable.unnamed recorded
  have length : r.params.length = args.length := Int.ofNat.inj (inherits.sized recorded)
  obtain ⟨env', isMatch', keeps, forwards⟩ :=
    Tree.matchAll_normalize r.guards config.stem (portable.linear recorded) length isMatch
  rcases inheritRoutine_eq_ok becomes with rfl | ⟨independent, rfl⟩
  · -- Delegated: the base is called again, and evaluates what it evaluated before.
    have none : ∀ key, (∅ : Table Key String).contains key = true →
        registry.imports.contains key = true := by
      intro key present
      cases present
    rw [invokeWith_of_checks held answers' isMatch']
    · -- The body of the base had a value, so there is a level left for the variables.
      cases depth with
      | zero => cases body
      | succ depth => exact eval_forwarder forwards (answers (some unit))
    · refine simulates.guardsHold none keeps (fun guard member => ?_) guards
      obtain ⟨original, independent⟩ := List.mem_filter.1 member
      refine ⟨guard, original, ⟨unnamed guard (List.mem_cons_of_mem _ original), ?_⟩, ?_⟩
      · simpa using independent
      · exact (Tree.qualified_empty guard).symm
  · -- Copied: guards and body are evaluated in the extension.
    rw [Tree.routineCalls, Bool.or_eq_false_iff, Bool.or_eq_false_iff] at independent
    obtain ⟨⟨inBody, inGuards⟩, -⟩ := independent
    rw [invokeWith_of_checks held answers' isMatch']
    · exact simulates ⟨unnamed _ List.mem_cons_self, inBody⟩ (fun _ same => same) keeps value body
    · refine simulates.guardsHold (fun _ same => same) keeps (fun guard' member => ?_) guards
      obtain ⟨guard, original, rfl⟩ := List.mem_map.1 member
      refine ⟨guard, original, ⟨unnamed guard (List.mem_cons_of_mem _ original), ?_⟩, rfl⟩
      simpa using List.any_eq_false.1 inGuards guard original

/-- A bare call is simulated, if expressions are. -/
theorem eval_call_transfers (inherits : p.Inherits config registry unit)
    (portable : registry.Portable) (delegates : config.delegateWithheld = true)
    (simulates : Simulates p config registry unit depth) {name : String} {args : List Tree}
    {env env' : Env} {imports : Table Key String}
    (movable : (Tree.call name args).Movable config registry)
    (imported : ∀ key, imports.contains key = true → registry.imports.contains key = true)
    (each : ∀ c ∈ args, Transfers (p.eval depth c env registry.unit)
      (p.eval (depth + 1) (c.qualified imports) env' unit)) :
    Transfers (p.eval (depth + 1) (.call name args) env registry.unit)
      (p.eval (depth + 2)
        (Tree.qualifiedNode imports (.call name (args.map (Tree.qualified imports)))) env'
        unit) := by
  intro value ok
  obtain ⟨values, evaluated, invoked⟩ := exists_of_bind_eq_ok ok
  have length := (forall₂_of_mapM_eq_ok evaluated).length_eq.symm
  have recorded := inherits.recorded_of_call delegates movable length invoked
  -- What is recorded is not imported, so the call stays a bare one.
  have absent : imports.get? (Key.ofCount name args.length) = none := by
    rw [Table.get?_eq_none_iff, Bool.eq_false_iff]
    intro present
    rw [portable.unimported (imported _ present)] at recorded
    cases recorded
  rw [Tree.qualifiedNode_call (by rw [List.length_map, absent])]
  refine (Transfers.mapM each).bind (fun values' evaluated' => ?_) value ok
  cases evaluated.symm.trans evaluated'
  rw [← length] at recorded
  exact invokeWith_transfers inherits portable simulates recorded _ _

/-- **One level.**  A part of a tree is evaluated one level less deep than the tree. -/
theorem simulates_succ (inherits : p.Inherits config registry unit) (portable : registry.Portable)
    (delegates : config.delegateWithheld = true)
    (simulates : Simulates p config registry unit depth) :
    Simulates p config registry unit (depth + 1) := by
  intro t env env' imports movable imported keeps
  have part : ∀ c ∈ t.children, Transfers (p.eval depth c env registry.unit)
      (p.eval (depth + 1) (c.qualified imports) env' unit) :=
    fun c member => simulates (movable.of_mem_children member) imported keeps
  rw [Tree.qualified_eq]
  cases t with
  | literal value => exact .refl _
  | var name =>
    intro value ok
    cases bound : env.get? name with
    | none =>
      rw [eval, bound] at ok
      cases ok
    | some a =>
      rw [eval, bound] at ok
      show p.eval (depth + 2) (.var name) env' unit = _
      rw [eval, keeps name a bound]
      exact ok
  | call name args =>
    exact eval_call_transfers inherits portable delegates simulates movable imported part
  | remoteCall target name args =>
    have other : registry.unit ≠ target := by
      intro same
      have unnamed := movable.unnamed _ (Tree.self_mem_walk _)
      rw [Tree.namesUnit, same, beq_self_eq_true] at unnamed
      cases unnamed
    refine (Transfers.mapM part).bind fun values _ => ?_
    -- The base calls another unit as the extension does, and no private routine answers either.
    have stranger : some registry.unit ≠ some target := fun same => other (Option.some.inj same)
    refine (invokeWith_of_other stranger (some unit)).trans ?_
    exact .of_below (invokeWith_below (eval_below_succ p depth) p target name values _)
  | currentUnit =>
    have unnamed := movable.unnamed _ (Tree.self_mem_walk _)
    cases unnamed
  | primitive symbol args =>
    rw [Tree.mapChildren, Tree.qualifiedNode, eval_primitive, eval_primitive]
    · cases Operation.ofSymbol? symbol with
      | none => exact .refl _
      | some operation => exact (Transfers.mapM part).bind fun values _ => .refl _
    · intro _ _ same
      cases same
  | fieldAccess subject field =>
    exact (part subject List.mem_cons_self).bind fun value _ => .refl _
  | tuple items => exact (Transfers.mapM part).bind fun values _ => .refl _
  | list items => exact (Transfers.mapM part).bind fun values _ => .refl _
  | cond condition thenBranch elseBranch =>
    refine (part condition (by simp [Tree.children])).bind fun value _ => ?_
    split
    · exact part thenBranch (by simp [Tree.children])
    · exact part elseBranch (by simp [Tree.children])
  | superCall | baseCall | binding | wildcard | constant | tuplePattern | listPattern | «alias»
  | optional =>
    intro value ok
    cases ok

/-- **Expressions are simulated** up to every depth. -/
theorem simulates (inherits : p.Inherits config registry unit) (portable : registry.Portable)
    (delegates : config.delegateWithheld = true) (depth : Nat) :
    Simulates p config registry unit depth := by
  induction depth with
  | zero =>
    intro t env env' imports _ _ _ value ok
    cases ok
  | succ depth ih => exact simulates_succ inherits portable delegates ih

/-- **Calls of what is inherited** have the values that they have on the base, one level deeper. -/
theorem callWithin_transfers (inherits : p.Inherits config registry unit)
    (portable : registry.Portable) (delegates : config.delegateWithheld = true) (depth : Nat)
    {name : String} {args : List Value}
    (recorded : registry.routines.contains (Key.ofCount name args.length) = true) :
    Transfers (callWithin depth p registry.unit name args)
      (callWithin (depth + 1) p unit name args) :=
  invokeWith_transfers inherits portable (simulates inherits portable delegates depth) recorded
    none none

end Simulation

end Program

end Heredity
