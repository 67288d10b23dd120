import Mathlib
import Heredity.Proofs.Locality
import Heredity.Proofs.Workspaces

/-!
# Sessions that work in turns

Several sessions are open on one workspace, and their commands come in any order.  They share the
store, the program and the list of warnings, so a command of one of them could be expected to change
what a command of another one does.  It does not.

* `Command.isWork` — the commands that let a session work.  Opening and ending a session are none.
* `Workspace.SameAt` — two workspaces have the same store, the same session of a unit and the same
  image of it.
* `Workspace.answers` — the outcomes of the commands for one unit.
* `Interleaves` — a list is made of two lists, and the order in each of them is kept.
* `Coherent.answers_eq` — a unit answers as it would if its commands were the only ones.
* `Reachable.answers_of_interleaves` — the order in which two sessions take turns plays no part.

**Two steps.**  A command of a unit sees no more of a workspace than the store, the session and the
image (`SameAt.after_own`), and a command of another unit changes none of the three
(`Coherent.sameAt_after_other`).  The list of warnings is shared and does depend on the order; but
nothing reads it.
-/

namespace Heredity

open Step (exec Matches)

/-! ## Working commands -/

namespace Command

/-- Whether a command lets a session work.  The others open a session or end it. -/
def isWork : Command → Bool
  | .openRoot .. | .openExtension .. | .finish _ => false
  | _ => true

variable {command : Command} {store : Store}

theorem exists_work_of_isWork (h : command.isWork = true) (store : Store) :
    ∃ m, command.work? store = some m := by
  cases command with
  | openRoot | openExtension | finish => cases h
  | define | grant | withhold | importRoutines | setHooks | run => exact ⟨_, rfl⟩

/-- What a session works at sees no more than the operations do. -/
theorem work?_matches {R : Bench → Bench → Prop} (unseen : Bench.Unseen R) {m : Step Bench Reply}
    (isWork : command.work? store = some m) : Matches R m m := by
  cases command with
  | openRoot | openExtension | finish => cases isWork
  | define unit declaration =>
    cases isWork
    exact (Session.define_matches unseen store declaration false).bind fun _ => .pure _
  | grant unit key =>
    cases isWork
    exact (Session.grant_matches unseen key).bind fun _ => .pure _
  | withhold unit key =>
    cases isWork
    exact (Session.withhold_matches unseen key).bind fun _ => .pure _
  | importRoutines unit source keys =>
    cases isWork
    exact (Session.importRoutines_matches unseen (fun _ _ => rfl) keys).bind fun _ => .pure _
  | setHooks unit pre post =>
    cases isWork
    exact (Session.setHooks_matches unseen pre post).bind fun _ => .pure _
  | run unit statement spliced =>
    cases isWork
    exact (Session.run_matches unseen store spliced statement).bind fun _ => .pure _

variable {commands : List Command} {unit other : String}

theorem filter_unit (own : ∀ command ∈ commands, command.unit = unit) :
    commands.filter (·.unit = unit) = commands :=
  List.filter_eq_self.2 fun command member => decide_eq_true (own command member)

theorem filter_unit_of_ne (own : ∀ command ∈ commands, command.unit = unit) (ne : unit ≠ other) :
    commands.filter (·.unit = other) = [] :=
  List.filter_eq_nil_iff.2 fun command member isOther =>
    ne ((own command member).symm.trans (of_decide_eq_true isOther))

end Command

/-! ## What one unit sees of a workspace -/

namespace Workspace

variable {w w' : Workspace} {unit : String} {command : Command}

/-- Two workspaces are the same for a unit: what is published, the session and the image. -/
structure SameAt (unit : String) (w w' : Workspace) : Prop where
  /-- The same is published. -/
  store : w'.store = w.store
  /-- The session is the same, with its draft and the declarations that stayed without effect. -/
  session : w'.sessions.get? unit = w.sessions.get? unit
  /-- The image is the same. -/
  image : w'.program.units.get? unit = w.program.units.get? unit

theorem SameAt.refl (unit : String) (w : Workspace) : w.SameAt unit w := ⟨rfl, rfl, rfl⟩

theorem SameAt.symm (h : w.SameAt unit w') : w'.SameAt unit w :=
  ⟨h.store.symm, h.session.symm, h.image.symm⟩

theorem SameAt.trans {w'' : Workspace} (h : w.SameAt unit w') (h' : w'.SameAt unit w'') :
    w.SameAt unit w'' :=
  ⟨h'.store.trans h.store, h'.session.trans h.session, h'.image.trans h.image⟩

/-- **An own command** has the same outcome on workspaces that are the same for the unit, and they
are the same for it afterwards. -/
theorem SameAt.after_own (h : w.SameAt unit w') (coherent : w.Coherent) (own : command.unit = unit)
    (works : command.isWork = true) :
    w'.outcome command = w.outcome command ∧
      (w.after command).SameAt unit (w'.after command) := by
  obtain ⟨m, isWork⟩ := Command.exists_work_of_isWork works w.store
  have performed := exec_perform_of_work isWork
  have performed' := exec_perform_of_work (w := w') (h.store.symm ▸ isWork)
  rw [own] at performed performed'
  rw [h.session] at performed'
  show (exec (perform command) w').1 = (exec (perform command) w).1 ∧
    SameAt unit (exec (perform command) w).2 (exec (perform command) w').2
  rw [performed, performed']
  cases session : w.sessions.get? unit with
  | none => exact ⟨rfl, h⟩
  | some s =>
    obtain ⟨named, -⟩ := coherent.session session
    have alike : (w.bench s).Alike unit (w'.bench s) := ⟨named, rfl, h.image⟩
    obtain ⟨outcome, left⟩ := Command.work?_matches (Bench.unseen_alike unit) isWork alike
    refine ⟨outcome, h.store, ?_, left.image⟩
    show (w'.sessions.insert unit _).get? unit = (w.sessions.insert unit _).get? unit
    rw [get?_sessions_insert, get?_sessions_insert, if_pos rfl, if_pos rfl, left.session]

/-- What a session works at leaves the store as it is. -/
theorem store_after_work (works : command.isWork = true) :
    (w.after command).store = w.store := by
  obtain ⟨m, isWork⟩ := Command.exists_work_of_isWork works w.store
  show (exec (perform command) w).2.store = w.store
  rw [exec_perform_of_work isWork]
  split <;> rfl

/-- **A command of another unit** changes nothing that the unit sees. -/
theorem Coherent.sameAt_after_other (h : w.Coherent) (other : unit ≠ command.unit)
    (works : command.isWork = true) : w.SameAt unit (w.after command) :=
  ⟨store_after_work works, h.sessions_elsewhere_after other, h.elsewhere_after other⟩

/-- The outcomes of the commands for a unit, one after the other, in a run of commands. -/
def answers (unit : String) : Workspace → List Command → List (Except Error Reply)
  | _, [] => []
  | w, command :: commands =>
    if command.unit = unit then w.outcome command :: answers unit (w.after command) commands
    else answers unit (w.after command) commands

/-- **Alone.**  Among the commands of other sessions, a unit answers as it does to its own commands
alone, and ends up the same. -/
theorem Coherent.answers_eq (h : w.Coherent) (same : w.SameAt unit w') {commands : List Command}
    (works : ∀ command ∈ commands, command.isWork = true) :
    answers unit w commands = w'.outcomes (commands.filter (·.unit = unit)) ∧
      (w.afterAll commands).SameAt unit (w'.afterAll (commands.filter (·.unit = unit))) := by
  induction commands generalizing w w' with
  | nil => exact ⟨rfl, same⟩
  | cons command commands ih =>
    obtain ⟨first, rest⟩ := List.forall_mem_cons.1 works
    by_cases own : command.unit = unit
    · obtain ⟨outcome, same'⟩ := same.after_own h own first
      obtain ⟨later, left⟩ := ih (h.after command) same' rest
      rw [List.filter_cons_of_pos (by simpa using own), answers, if_pos own, outcomes, later,
        outcome]
      exact ⟨rfl, left⟩
    · have same' := (h.sameAt_after_other (Ne.symm own) first).symm.trans same
      rw [List.filter_cons_of_neg (by simpa using own), answers, if_neg own]
      exact ih (h.after command) same' rest

end Workspace

/-! ## Two lists in turns -/

/-- A list is made of two lists, and the order in each of them is kept. -/
inductive Interleaves {α : Type} : List α → List α → List α → Prop where
  /-- Both lists are at their ends. -/
  | nil : Interleaves [] [] []
  /-- The next element is the first one of the first list. -/
  | left {xs ys zs : List α} (x : α) (rest : Interleaves xs ys zs) :
      Interleaves (x :: xs) ys (x :: zs)
  /-- The next element is the first one of the second list. -/
  | right {xs ys zs : List α} (y : α) (rest : Interleaves xs ys zs) :
      Interleaves xs (y :: ys) (y :: zs)

namespace Interleaves

variable {α : Type} {xs ys zs : List α} {p : α → Bool}

theorem mem_iff (h : Interleaves xs ys zs) {z : α} : z ∈ zs ↔ z ∈ xs ∨ z ∈ ys := by
  induction h with
  | nil => simp
  | left x rest ih => rw [List.mem_cons, List.mem_cons, ih, or_assoc]
  | right y rest ih => rw [List.mem_cons, List.mem_cons, ih, or_left_comm]

/-- A selection from only one of the two lists does not see how they take turns. -/
theorem filter_eq (h : Interleaves xs ys zs) (apart : xs.filter p = [] ∨ ys.filter p = []) :
    zs.filter p = xs.filter p ++ ys.filter p := by
  induction h with
  | nil => rfl
  | @left xs ys zs x rest ih =>
    by_cases selected : p x = true
    · rw [List.filter_cons_of_pos selected] at apart
      rw [List.filter_cons_of_pos selected, List.filter_cons_of_pos selected,
        ih (.inr (apart.resolve_left (List.cons_ne_nil _ _)))]
      rfl
    · rw [List.filter_cons_of_neg selected] at apart
      rw [List.filter_cons_of_neg selected, List.filter_cons_of_neg selected, ih apart]
  | @right xs ys zs y rest ih =>
    by_cases selected : p y = true
    · rw [List.filter_cons_of_pos selected] at apart
      have none := apart.resolve_right (List.cons_ne_nil _ _)
      rw [List.filter_cons_of_pos selected, List.filter_cons_of_pos selected, ih (.inl none), none]
      rfl
    · rw [List.filter_cons_of_neg selected] at apart
      rw [List.filter_cons_of_neg selected, List.filter_cons_of_neg selected, ih apart]

end Interleaves

namespace Workspace

variable {w : Workspace}

/-- **Turns.**  Let two units have sessions in any workspace that commands have led to, and let each
be given a list of commands to work at, whether they fail or not.  In whatever way the two lists
take turns, each command has the outcome that it has where the first list comes completely before
the second.  Afterwards every unit has the same session, with its draft and the declarations that
stayed without effect, and the same image. -/
theorem Reachable.answers_of_interleaves (h : w.Reachable) {first second : String}
    (apart : first ≠ second) {firsts seconds commands : List Command}
    (ofFirst : ∀ command ∈ firsts, command.unit = first ∧ command.isWork = true)
    (ofSecond : ∀ command ∈ seconds, command.unit = second ∧ command.isWork = true)
    (turns : Interleaves firsts seconds commands) :
    answers first w commands = w.outcomes firsts ∧
      answers second w commands = (w.afterAll firsts).outcomes seconds ∧
      ∀ unit, (w.afterAll (firsts ++ seconds)).SameAt unit (w.afterAll commands) := by
  have coherent := h.coherent
  have works₁ : ∀ command ∈ firsts, command.isWork = true := fun c member => (ofFirst c member).2
  have works₂ : ∀ command ∈ seconds, command.isWork = true := fun c member => (ofSecond c member).2
  have works : ∀ command ∈ commands, command.isWork = true := fun c member =>
    (turns.mem_iff.1 member).elim (works₁ c) (works₂ c)
  have own₁ := Command.filter_unit fun c member => (ofFirst c member).1
  have own₂ := Command.filter_unit fun c member => (ofSecond c member).1
  have other₁ : ∀ unit, first ≠ unit → firsts.filter (·.unit = unit) = [] := fun unit =>
    Command.filter_unit_of_ne fun c member => (ofFirst c member).1
  have other₂ : ∀ unit, second ≠ unit → seconds.filter (·.unit = unit) = [] := fun unit =>
    Command.filter_unit_of_ne fun c member => (ofSecond c member).1
  have selected : ∀ unit, commands.filter (·.unit = unit) =
      firsts.filter (·.unit = unit) ++ seconds.filter (·.unit = unit) := by
    intro unit
    refine turns.filter_eq ?_
    by_cases same : first = unit
    · exact .inr (other₂ unit (same ▸ apart.symm))
    · exact .inl (other₁ unit same)
  refine ⟨?_, ?_, fun unit => ?_⟩
  · obtain ⟨alone, -⟩ := coherent.answers_eq (.refl first w) works
    rwa [selected, own₁, other₂ _ apart.symm, List.append_nil] at alone
  · -- The second list is worked at as if nothing had come before it, in both orders.
    obtain ⟨alone, -⟩ := coherent.answers_eq (.refl second w) works
    rw [selected, other₁ _ apart, own₂, List.nil_append] at alone
    obtain ⟨-, untouched⟩ := coherent.answers_eq (.refl second w) works₁
    rw [other₁ _ apart] at untouched
    obtain ⟨later, -⟩ := (coherent.afterAll firsts).answers_eq untouched works₂
    obtain ⟨later', -⟩ := (coherent.afterAll firsts).answers_eq (.refl second _) works₂
    rw [own₂] at later later'
    exact alone.trans (later.symm.trans later')
  · obtain ⟨-, inTurns⟩ := coherent.answers_eq (.refl unit w) works
    have inOrder : (w.afterAll (firsts ++ seconds)).SameAt unit
        (w.afterAll ((firsts ++ seconds).filter (·.unit = unit))) :=
      (coherent.answers_eq (.refl unit w) fun c member =>
        (List.mem_append.1 member).elim (works₁ c) (works₂ c)).2
    rw [List.filter_append, ← selected] at inOrder
    exact inOrder.trans inTurns.symm

/-- Two units with open sessions.  The first one extends a unit that has locked its routine. -/
def twoSessions : Workspace :=
  afterAll ∅ [.openRoot {} "base" (.list []),
    .define "base" ⟨"f", [], .literal (.int 0), [], false, false⟩,
    .finish "base",
    .openExtension {} "left" "base" (.list []),
    .openRoot {} "right" (.list [])]

/-- The first unit declares the locked routine in vain, then permits what it has not declared, and
then declares it. -/
def leftCommands : List Command :=
  [.define "left" ⟨"f", [], .literal (.int 1), [], false, false⟩,
    .grant "left" (.ofCount "g" 0),
    .run "left" (.define ⟨"g", [], .literal (.int 2), [], false, true⟩) false]

/-- The second unit imports the routine, and withholds and grants one of the name of the other
unit's. -/
def rightCommands : List Command :=
  [.importRoutines "right" (.text "base") none,
    .define "right" ⟨"g", [], .call "f" [], [], false, false⟩,
    .withhold "right" (.ofCount "g" 0),
    .grant "right" (.ofCount "g" 0)]

/-- The commands of both units in turns. -/
def turns : List Command :=
  [.importRoutines "right" (.text "base") none,
    .define "left" ⟨"f", [], .literal (.int 1), [], false, false⟩,
    .grant "left" (.ofCount "g" 0),
    .define "right" ⟨"g", [], .call "f" [], [], false, false⟩,
    .run "left" (.define ⟨"g", [], .literal (.int 2), [], false, true⟩) false,
    .withhold "right" (.ofCount "g" 0),
    .grant "right" (.ofCount "g" 0)]

/-- In turns, each unit fails where it fails alone, and keeps its routine or loses it. -/
theorem answers_of_turns :
    Interleaves leftCommands rightCommands turns ∧
      answers "left" twoSessions turns = twoSessions.outcomes leftCommands ∧
      answers "right" twoSessions turns =
        (twoSessions.afterAll leftCommands).outcomes rightCommands ∧
      (twoSessions.afterAll (leftCommands ++ rightCommands)).SameAt "left"
        (twoSessions.afterAll turns) ∧
      (twoSessions.afterAll (leftCommands ++ rightCommands)).SameAt "right"
        (twoSessions.afterAll turns) ∧
      (answers "left" twoSessions turns).map Except.isOk = [true, false, true] ∧
      (answers "right" twoSessions turns).map Except.isOk = [true, true, true, false] ∧
      ((twoSessions.afterAll turns).sessions.get? "left").map (fun s =>
        (s.inert.length, s.draft.routines.contains (.ofCount "g" 0))) = some (1, true) ∧
      ((twoSessions.afterAll turns).sessions.get? "right").map (fun s =>
        (s.inert.length, s.draft.routines.contains (.ofCount "g" 0))) = some (0, false) := by
  have isTurns : Interleaves leftCommands rightCommands turns :=
    .right _ <| .left _ <| .left _ <| .right _ <| .left _ <| .right _ <| .right _ .nil
  have reachable : twoSessions.Reachable := Reachable.empty.afterAll _
  have apart : "left" ≠ "right" := by decide
  obtain ⟨left, right, same⟩ := Reachable.answers_of_interleaves reachable apart
    (by simp [leftCommands, Command.unit, Command.isWork])
    (by simp [rightCommands, Command.unit, Command.isWork]) isTurns
  refine ⟨isTurns, left, right, same "left", same "right", ?_⟩
  cbv

end Workspace

end Heredity
