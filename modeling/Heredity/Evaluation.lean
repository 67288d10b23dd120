import Heredity.Matching
import Heredity.Program
import Heredity.Value.Operation

/-!
# Evaluation

A program answers calls by evaluating the bodies of the routines in its images.

* `Program.invokeWith` looks a routine up, matches its parameters, checks its guards and evaluates
  its body; evaluation itself is an argument.
* `Program.eval` evaluates an expression.  Its first argument bounds the depth of nesting, by
  expressions and calls alike; where that is used up the outcome is `Error.tooDeep`, and any other
  outcome is the same for every larger bound.
* `Program.call` is a call from outside any unit, with the bound `Program.depthLimit`.

A private routine answers only calls from its own unit.  A bare call goes to the unit that executes
the body, a qualified one to the unit that it names.

### Why the bound is on the depth

**One argument for both recursions.**  An expression is larger than its parts, but the body of a
callee may be larger than the call.  Depth decreases in both cases, so `Program.eval` is structural
in it, and `Program.invokeWith` need not be part of the recursion.

**Independent parts do not share it.**  The operands of an operation are evaluated with the same
bound, whatever the others used, so the outcome of a part does not depend on its neighbours.
-/

namespace Heredity.Program

/-- The depth up to which calls from outside are evaluated.  It counts levels of nested expressions
and calls.  A host counts the frames of its own stack, of which a level takes several, so this
stands for the fact that there is a limit, not for the place where a host has it. -/
def depthLimit : Nat := 1000

/-- The routine that a unit answers a call with. -/
def callee (image : Image) (unit : String) (key : Key) (caller : Option String) :
    Except Error Emission :=
  match image.routines.get? key with
  | some routine =>
    if routine.isPrivate && caller != some unit then .error (.undefinedRoutine unit key)
    else .ok routine
  | none =>
    if image.withheld.contains key then .error (.withheldRoutine unit key)
    else .error (.undefinedRoutine unit key)

/-- A unit answers with a routine of its image, a private one to itself only. -/
theorem callee_eq_ok {image : Image} {unit : String} {key : Key} {caller : Option String}
    {e : Emission} (h : callee image unit key caller = .ok e) :
    image.routines.get? key = some e ∧ (e.isPrivate = false ∨ caller = some unit) := by
  unfold callee at h
  cases stored : image.routines.get? key with
  | none =>
    rw [stored] at h
    dsimp only at h
    split at h <;> cases h
  | some routine =>
    rw [stored] at h
    dsimp only at h
    split at h
    · cases h
    · next allowed =>
      cases h
      refine ⟨rfl, ?_⟩
      cases isPrivate : e.isPrivate with
      | false => exact .inl rfl
      | true => exact .inr (by simpa [isPrivate] using allowed)

/-- A routine that is not private answers every caller. -/
theorem callee_of_public {image : Image} {key : Key} {e : Emission}
    (stored : image.routines.get? key = some e) (isPublic : e.isPrivate = false) (unit : String)
    (caller : Option String) : callee image unit key caller = .ok e := by
  rw [callee, stored]
  dsimp only
  rw [isPublic]
  rfl

/-- Evaluates guards in order until one does not hold. -/
def guardsHold (evaluate : Tree → Except Error Value) : List Tree → Except Error Bool
  | [] => .ok true
  | guard :: guards => do
    let value ← evaluate guard
    if value.isTruthy then guardsHold evaluate guards else return false

/-- Answers a call, given how expressions are evaluated. -/
def invokeWith (evaluate : Tree → Env → String → Except Error Value) (p : Program)
    (unit name : String) (args : List Value) (caller : Option String) : Except Error Value := do
  let key := Key.ofCount name args.length
  let image ← p.image unit
  let routine ← callee image unit key caller
  let (matched, env) ← Tree.matchAll routine.params args ∅
  if !matched then throw (.noMatch unit key args)
  let accepted ← guardsHold (fun guard => evaluate guard env unit) routine.guards
  if !accepted then throw (.guardsReject unit key args)
  evaluate routine.body env unit

/-- The value of the field of a record or the entry of a map. -/
def readField (subject : Value) (field : String) : Except Error Value :=
  match subject.entries? with
  | none => .error (.noFields field subject)
  | some entries =>
    match entries.find? (fun e => e.1 == Value.text field) with
    | some e => .ok e.2
    | none => .error (.fault .missingKey)

/-- Evaluates an expression in an environment, on behalf of a unit. -/
def eval (p : Program) : Nat → Tree → Env → String → Except Error Value
  | 0, _, _, _ => .error .tooDeep
  | depth + 1, t, env, unit =>
    match t with
    | .literal value => .ok value
    | .var name =>
      match env.get? name with
      | some value => .ok value
      | none => .error (.unboundVariable name unit)
    | .call name args => do
      let values ← args.mapM fun arg => eval p depth arg env unit
      invokeWith (eval p depth) p unit name values (some unit)
    | .remoteCall target name args => do
      let values ← args.mapM fun arg => eval p depth arg env unit
      invokeWith (eval p depth) p target name values (some unit)
    | .currentUnit => .ok (.text unit)
    | .primitive symbol args =>
      -- An unknown symbol is reported before any operand is evaluated.
      match Operation.ofSymbol? symbol with
      | none => .error (.unknownOperation symbol)
      | some operation => do
        let values ← args.mapM fun arg => eval p depth arg env unit
        (operation.apply values).mapError .fault
    | .fieldAccess subject field => do
      let value ← eval p depth subject env unit
      readField value field
    | .tuple items => do
      let values ← items.mapM fun item => eval p depth item env unit
      return .tuple values
    | .list items => do
      let values ← items.mapM fun item => eval p depth item env unit
      return .list values
    | .cond condition thenBranch elseBranch => do
      let value ← eval p depth condition env unit
      if value.isTruthy then eval p depth thenBranch env unit
      else eval p depth elseBranch env unit
    | .superCall args => .error (.unboundBaseReference unit (.superCall args))
    | .baseCall name args => .error (.unboundBaseReference unit (.baseCall name args))
    | t => .error (.notAnExpression t)

/-- Calls a routine from outside, with a bound on the depth. -/
def callWithin (depth : Nat) (p : Program) (unit name : String) (args : List Value) :
    Except Error Value :=
  invokeWith (p.eval depth) p unit name args none

/-- Calls a routine from outside any unit. -/
def call (p : Program) (unit name : String) (args : List Value) : Except Error Value :=
  callWithin depthLimit p unit name args

/-- Whether a call has an outcome at some depth: a value, or an error other than being too deep. -/
def Answers (p : Program) (unit name : String) (args : List Value)
    (outcome : Except Error Value) : Prop :=
  outcome ≠ .error .tooDeep ∧ ∃ depth, callWithin depth p unit name args = outcome

end Heredity.Program
