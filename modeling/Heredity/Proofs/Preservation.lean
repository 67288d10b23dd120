import Mathlib
import Heredity.Proofs.Opening
import Heredity.Proofs.Simulation

/-!
# Inheritance preserves behaviour

An extension that declares nothing answers calls of what it inherits with the values with which its
base answers them.

* `Table.Sized` — recorded routines have as many parameters as their keys say.
* `Coherent.inherits_afterAll` — after an extension was opened and commands were executed that
  declare nothing for it, program and registry are as the simulation asks.
* `Reachable.answers_inherited` — calls that have a value on the base have it on the extension.

**The base may change, too.**  After its registry is published a unit can still declare what it
withholds.  Nothing of that is recorded, so the image of the base in the last program is compared
with the registry, and not with the image from which the extension was made.
-/

namespace Heredity

/-! ## The number of parameters -/

/-- Every routine of a table has as many parameters as its key says. -/
def Table.Sized (routines : Table Key RoutineRecord) : Prop :=
  ∀ key r, routines.get? key = some r → (r.params.length : Int) = key.arity.toInt

/-- **Every unit in writing** records routines of the right sizes. -/
theorem Writing.Attained.sized {w : Writing} (h : w.Attained) : w.draft.routines.Sized := by
  refine h.records (fun e made => ?_) (fun sized => sized) (fun agrees sized => ?_)
    fun becomes sized => ?_
  · rw [made.arity]
    rfl
  · rw [sized, (Key.beq_iff.1 agrees).2]
  · rw [(inheritRoutine_keeps becomes).2, Tree.length_normalize]
    exact sized

/-! ## The setting comes about -/

namespace Workspace

variable {w : Workspace}

/-- The records of a published unit have the right sizes. -/
theorem Coherent.published_sized (h : w.Coherent) {unit : String} {registry : Registry}
    (published : w.store.get? unit = some registry) : registry.routines.Sized := by
  obtain ⟨s, session, -, rfl⟩ := h.published published
  obtain ⟨-, image, -, attained⟩ := h.session session
  exact attained.sized

/-- **After opening.**  An extension of a unit without hooks stands to it as the simulation asks, as
long as nothing is declared for it. -/
theorem Coherent.inherits_afterAll (h : w.Coherent) {config : Config} {unit base : String}
    {fields : Value} {reply : Reply} {registry : Registry} {commands : List Command}
    (published : w.store.get? base = some registry) (free : registry.HookFree)
    (opens : w.outcome (.openExtension config unit base fields) = .ok reply)
    (silent : ∀ command ∈ commands, command.unit = unit → command.isDeclaration = false) :
    registry.unit = base ∧
      (w.afterAll (.openExtension config unit base fields :: commands)).program.Inherits config
        registry unit := by
  obtain ⟨resolution, s, image, resolved, session, held, fresh⟩ :=
    opened_extension published free opens
  have opened := h.after (.openExtension config unit base fields)
  have coherent : (w.afterAll (.openExtension config unit base fields :: commands)).Coherent :=
    opened.afterAll commands
  have still := opened.store_afterAll (h.store_after published) commands
  obtain ⟨s', session', -, -⟩ := coherent.published still
  obtain ⟨-, baseImage, baseHeld, -⟩ := coherent.session session'
  obtain ⟨rfl, present, accounted, apart⟩ := coherent.published_agrees still baseHeld
  obtain ⟨image', held', same⟩ := opened.routines_afterAll session held silent
  refine ⟨rfl, ⟨⟨baseImage, baseHeld, present, accounted⟩, ⟨image', held', ?_⟩, ?_⟩⟩
  · intro key r recorded
    have passedOn : registry.withheld.contains key = false := by
      rw [Bool.eq_false_iff]
      intro withheld
      have absent := (Table.get?_eq_none_iff _ _).2 (apart withheld)
      cases recorded.symm.trans absent
    obtain ⟨key', r', needs, -, becomes, -, stored⟩ :=
      fresh.exists_inherited resolved recorded passedOn
    exact ⟨key', r', needs, becomes, same ▸ stored⟩
  · exact fun recorded => coherent.published_sized still _ _ recorded

/-- **Inheritance preserves behaviour.**  Let a unit extend a published one without hooks, whose
routines are portable, and let no command declare anything for it.  Whatever else is executed, if a
call of a routine that the base records has a value on the base, it has the same value on the
extension.  One more level of depth is enough for it, so a call from outside can only fail by being
too deep; what counts there are levels, as `Program.depthLimit` says, and not the frames of a host.
-/
theorem Reachable.answers_inherited (h : w.Reachable) {config : Config} {unit base : String}
    {fields : Value} {reply : Reply} {registry : Registry} {commands : List Command}
    {name : String} {args : List Value} (published : w.store.get? base = some registry)
    (free : registry.HookFree) (portable : registry.Portable)
    (delegates : config.delegateWithheld = true)
    (opens : w.outcome (.openExtension config unit base fields) = .ok reply)
    (silent : ∀ command ∈ commands, command.unit = unit → command.isDeclaration = false)
    (recorded : registry.routines.contains (Key.ofCount name args.length) = true) :
    let p := (w.afterAll (.openExtension config unit base fields :: commands)).program
    ∀ value, (p.Answers base name args (.ok value) → p.Answers unit name args (.ok value)) ∧
      (∀ depth, p.callWithin depth base name args = .ok value →
        p.callWithin (depth + 1) unit name args = .ok value) ∧
      (p.call base name args = .ok value →
        p.call unit name args = .ok value ∨ p.call unit name args = .error .tooDeep) := by
  intro p value
  obtain ⟨rfl, inherits⟩ := h.coherent.inherits_afterAll published free opens silent
  have each : ∀ depth, p.callWithin depth registry.unit name args = .ok value →
      p.callWithin (depth + 1) unit name args = .ok value :=
    fun depth => Program.callWithin_transfers inherits portable delegates depth recorded value
  refine ⟨?_, each, fun ok => ?_⟩
  · rintro ⟨defined, depth, ok⟩
    exact ⟨defined, depth + 1, each depth ok⟩
  · have deeper := each Program.depthLimit ok
    rcases Program.callWithin_below p (Nat.le_succ Program.depthLimit) unit name args with
      deep | same
    · exact .inr deep
    · exact .inl (same.trans deeper)

/-- A workspace with a published unit that counts down to zero.  One of its two routines calls a
private and a withheld one, so it is delegated; the other has a guard and a parameter without a
name, calls another unit, and is copied.  Each calls the other. -/
def countingWorkspace : Workspace :=
  afterAll ∅ [.openRoot {} "lib" (.list []),
    .define "lib" ⟨"pred", [.binding "n"], .primitive "-" [.var "n", .literal (.int 1)], [], false,
      false⟩,
    .finish "lib",
    .openRoot {} "base" (.list []),
    .define "base" ⟨"isZero", [.binding "n"], .primitive "==" [.var "n", .literal (.int 0)], [],
      true, false⟩,
    .define "base" ⟨"done", [], .literal (.text "done"), [], false, false⟩,
    .define "base" ⟨"count", [.binding "n"], .cond (.call "isZero" [.var "n"]) (.call "done" [])
      (.call "next" [.tuple [.var "n", .var "n"]]), [], false, false⟩,
    .define "base" ⟨"next", [.tuplePattern [.binding "n", .wildcard "_"]],
      .call "count" [.remoteCall "lib" "pred" [.var "n"]],
      [.primitive ">" [.var "n", .literal (.int 0)]], false, false⟩,
    .withhold "base" (.ofCount "done" 0),
    .finish "base"]

/-- The extension counts down from two, through copied and delegated routines in turn. -/
theorem answers_of_counting :
    (countingWorkspace.afterAll [.openExtension {} "child" "base" (.list []),
      .finish "child"]).program.Answers "child" "next" [.tuple [.int 2, .null]]
        (.ok (.text "done")) := by
  have evaluated : ((countingWorkspace.store.get? "base").map fun registry =>
        (registry.preHook, registry.postHook, decide registry.Portable,
          registry.routines.contains (.ofCount "next" 1))) = some (none, none, true, true) ∧
      countingWorkspace.outcome (.openExtension {} "child" "base" (.list [])) = .ok .done ∧
      Program.callWithin 12 (countingWorkspace.afterAll
        [.openExtension {} "child" "base" (.list []), .finish "child"]).program
          "base" "next" [.tuple [.int 2, .null]] = .ok (.text "done") := by
    cbv
  obtain ⟨stored, opens, called⟩ := evaluated
  obtain ⟨registry, published, facts⟩ := Option.map_eq_some_iff.1 stored
  simp only [Prod.mk.injEq, decide_eq_true_eq] at facts
  obtain ⟨pre, post, portable, passedOn⟩ := facts
  have silent : ∀ command ∈ [Command.finish "child"], command.unit = "child" →
      command.isDeclaration = false := by simp [Command.isDeclaration]
  have counted : (countingWorkspace.afterAll [.openExtension {} "child" "base" (.list []),
      .finish "child"]).program.Answers "base" "next" [.tuple [.int 2, .null]]
        (.ok (.text "done")) := by
    refine ⟨fun deep => ?_, 12, called⟩
    cases deep
  have reachable : countingWorkspace.Reachable := Reachable.empty.afterAll _
  have recorded : registry.routines.contains
      (.ofCount "next" [Value.tuple [.int 2, .null]].length) = true := passedOn
  have answers := Reachable.answers_inherited reachable published ⟨pre, post⟩ portable rfl opens
    silent recorded (.text "done")
  exact answers.1 counted

end Workspace

end Heredity
