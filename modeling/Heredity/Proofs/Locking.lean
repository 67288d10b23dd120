import Mathlib
import Heredity.Evaluation
import Heredity.Proofs.Opening

/-!
# Locked routines

A routine that a unit inherits without the permission to replace it is locked.  A declaration at its
key is inert then, yet the routine can be replaced after all: once the unit withholds the key, it
may declare it privately or for itself, and either way the declaration takes the place of the
inherited routine in the image.  This file proves that there is no other way.

* `Phase` — how far a unit has come in replacing a routine, with `Phase.advance` for what
  withholding and declaring it do.
* `Writing.InPhase` — what a phase means for the draft and the image.
* `InPhase.step`, `InPhase.run` — events move a unit through the phases.
* `Command.Redeclares` — a declaration at a key comes after the key was withheld.
* `Reachable.holds_inherited_iff` — the exact condition under which a locked routine stays.

**Only commands that succeed are counted.**  A declaration of which some variant is refused may have
declared others before; the commands of the theorem complete, so that a command that declares a key
has done so.
-/

namespace Heredity

open Step (exec)

/-! ## Phases -/

/-- How far a unit has come in replacing a routine that it inherited locked. -/
inductive Phase where
  /-- The routine is recorded as inherited. -/
  | locked
  /-- The key is withheld; the image still holds the inherited routine. -/
  | withheld
  /-- The image holds a declaration of the unit. -/
  | replaced
deriving DecidableEq

/-- The phase after something that may withhold the key or declare it, but not both. -/
def Phase.advance (withholds declares : Bool) : Phase → Phase
  | .locked => if withholds then .withheld else .locked
  | .withheld => if declares then .replaced else .withheld
  | .replaced => .replaced

/-- Whether an event withholds a key. -/
def Event.withholds (key : Key) : Event → Bool
  | .withhold k => k == key
  | _ => false

/-- Whether an event declares a variant at a key. -/
def Event.declares (key : Key) : Event → Bool
  | .declare e _ _ => e.key == key
  | _ => false

namespace Phase

variable {α : Type}

/-- The phase after a sequence of such things. -/
def run (withholds declares : α → Bool) (phase : Phase) (xs : List α) : Phase :=
  xs.foldl (fun phase x => phase.advance (withholds x) (declares x)) phase

variable (f g : α → Bool)

@[simp] theorem run_nil (phase : Phase) : run f g phase [] = phase := rfl

@[simp] theorem run_cons (phase : Phase) (x : α) (xs : List α) :
    run f g phase (x :: xs) = run f g (phase.advance (f x) (g x)) xs := rfl

/-- Where nothing withholds, what counts is whether anything declares. -/
theorem run_of_none_withholds {xs : List α} (h : xs.any f = false) (phase : Phase) :
    run f g phase xs = phase.advance false (xs.any g) := by
  induction xs generalizing phase with
  | nil => cases phase <;> rfl
  | cons x xs ih =>
    rw [List.any_cons, Bool.or_eq_false_iff] at h
    rw [run_cons, ih h.2, h.1, List.any_cons]
    cases phase <;> cases g x <;> rfl

/-- Where nothing declares, what counts is whether anything withholds. -/
theorem run_of_none_declares {xs : List α} (h : xs.any g = false) (phase : Phase) :
    run f g phase xs = phase.advance (xs.any f) false := by
  induction xs generalizing phase with
  | nil => cases phase <;> rfl
  | cons x xs ih =>
    rw [List.any_cons, Bool.or_eq_false_iff] at h
    rw [run_cons, ih h.2, h.1, List.any_cons]
    cases phase <;> cases f x <;> rfl

/-- A sequence that does not do both does what one thing does. -/
theorem run_eq_advance {xs : List α} (h : (xs.any f && xs.any g) = false) (phase : Phase) :
    run f g phase xs = phase.advance (xs.any f) (xs.any g) := by
  rcases Bool.and_eq_false_iff.1 h with none | none
  · rw [run_of_none_withholds f g none, none]
  · rw [run_of_none_declares f g none, none]

theorem run_replaced (xs : List α) : run f g .replaced xs = .replaced := by
  induction xs with
  | nil => rfl
  | cons x xs ih => exact ih

/-- From a withheld routine, any declaration leads to its replacement. -/
theorem run_withheld_eq_replaced (xs : List α) :
    run f g .withheld xs = .replaced ↔ ∃ x ∈ xs, g x = true := by
  induction xs with
  | nil => simp
  | cons x xs ih =>
    rw [run_cons, advance.eq_2]
    cases declares : g x with
    | true => simp [run_replaced, declares]
    | false => simp [ih, declares]

/-- **The order decides.**  A locked routine is replaced exactly if something withholds it and
something later declares it. -/
theorem run_locked_eq_replaced (xs : List α) :
    run f g .locked xs = .replaced ↔
      ∃ x y, [x, y].Sublist xs ∧ f x = true ∧ g y = true := by
  induction xs with
  | nil => simp
  | cons z xs ih =>
    rw [run_cons, advance.eq_1]
    cases withholds : f z with
    | true =>
      rw [if_pos rfl, run_withheld_eq_replaced]
      constructor
      · rintro ⟨y, member, declares⟩
        exact ⟨z, y, (List.singleton_sublist.2 member).cons_cons z, withholds, declares⟩
      · rintro ⟨x, y, sub, -, declares⟩
        have tail : [y].Sublist xs := List.Sublist.tail sub
        exact ⟨y, List.singleton_sublist.1 tail, declares⟩
    | false =>
      rw [if_neg Bool.false_ne_true, ih]
      constructor
      · rintro ⟨x, y, sub, hx, hy⟩
        exact ⟨x, y, sub.cons z, hx, hy⟩
      · rintro ⟨x, y, sub, hx, hy⟩
        rcases List.sublist_cons_iff.1 sub with sub | ⟨rest, same, -⟩
        · exact ⟨x, y, sub, hx, hy⟩
        · cases same
          rw [withholds] at hx
          cases hx

end Phase

/-! ## Phases of a unit in writing -/

namespace Writing

/-- The unit is in a phase with a routine, of which `e` is the inherited emission. -/
def InPhase (key : Key) (e : Emission) (w : Writing) : Phase → Prop
  | .locked => (∃ r, w.draft.routines.get? key = some r ∧ r.inherited = true) ∧
      w.draft.withheld.contains key = false ∧ w.image.routines.get? key = some e
  | .withheld => w.draft.withheld.contains key = true ∧ w.image.routines.get? key = some e
  | .replaced => ∃ e', w.image.routines.get? key = some e' ∧ e'.origin = .native

namespace InPhase

variable {key : Key} {e : Emission} {w w' : Writing} {event : Event}

/-- Another routine in the image does not change what it holds at the key. -/
theorem get?_hold_of_ne {e' : Emission} (other : ¬ (e'.key == key) = true) :
    (w.hold e').image.routines.get? key = w.image.routines.get? key := by
  rw [routines_hold, Table.get?_insert, if_neg other]

theorem get?_hold_of_agrees {e' : Emission} (agrees : (e'.key == key) = true) :
    (w.hold e').image.routines.get? key = some e' := by
  rw [routines_hold, Table.get?_insert, if_pos agrees]

/-- A declaration in the image replaces what was withheld, if it is at the key. -/
theorem withheld_hold {e' : Emission} {d : Draft} (made : e'.Made)
    (withheld : d.withheld.contains key = true)
    (held : w.image.routines.get? key = some e) :
    InPhase key e ((w.withDraft d).hold e') (Phase.withheld.advance false (e'.key == key)) := by
  cases agrees : e'.key == key with
  | true => exact ⟨e', get?_hold_of_agrees agrees, made.native⟩
  | false =>
    have other := Bool.eq_false_iff.1 agrees
    exact ⟨withheld, (get?_hold_of_ne other).trans held⟩

/-- A declaration of the unit stays in the image, or gives way to another one. -/
theorem replaced_hold {e' : Emission} (made : e'.Made) (h : InPhase key e w .replaced) :
    InPhase key e (w.hold e') .replaced := by
  obtain ⟨e₀, held, native⟩ := h
  by_cases agrees : (e'.key == key) = true
  · exact ⟨e', get?_hold_of_agrees agrees, made.native⟩
  · exact ⟨e₀, (get?_hold_of_ne agrees).trans held, native⟩

theorem step_replaced (h : InPhase key e w .replaced) (own : event.isOwn = true)
    (move : Moves w event w') : InPhase key e w' .replaced := by
  cases move with
  | declarePrivate made | declareLocal made | declareRecorded made => exact h.replaced_hold made
  | skip | inherit => cases own
  | _ => exact h

theorem step_withheld (h : InPhase key e w .withheld) (own : event.isOwn = true)
    (move : Moves w event w') :
    InPhase key e w' (Phase.withheld.advance (event.withholds key) (event.declares key)) := by
  obtain ⟨withheld, held⟩ := h
  -- The ledger takes a declaration at a withheld key for the unit alone.
  have elsewhere : ∀ {e' : Emission}, w.draft.withheld.contains e'.key = false →
      (e'.key == key) = false := by
    intro e' passedOn
    rw [Bool.eq_false_iff]
    intro agrees
    rw [Table.contains_congr _ agrees] at passedOn
    exact Bool.false_ne_true (passedOn.symm.trans withheld)
  cases move with
  | declarePrivate made => exact withheld_hold made withheld held
  | declareLocal made => exact withheld_hold (d := w.draft) made withheld held
  | declareRecorded made isPublic writable notPrivate passedOn admitted =>
    exact withheld_hold made withheld held
  | declareInert made isPublic notPrivate passedOn =>
    rw [Event.declares, elsewhere passedOn]
    exact ⟨withheld, held⟩
  | withhold writable =>
    refine ⟨?_, held⟩
    rw [draft_withDraft, OrderedSet.contains_add, withheld, Bool.or_true]
  | skip | inherit => cases own
  | grant | importKey | setHooks | require | close | complete => exact ⟨withheld, held⟩

theorem step_locked (permission : w.ledger.permissions.get? key = some false)
    (h : InPhase key e w .locked) (own : event.isOwn = true) (move : Moves w event w') :
    InPhase key e w' (Phase.locked.advance (event.withholds key) (event.declares key)) := by
  obtain ⟨⟨r, recorded, inherited⟩, passedOn, held⟩ := h
  have present : w.draft.routines.contains key = true :=
    Table.contains_iff_exists_get?.2 ⟨r, recorded⟩
  cases move with
  | @declarePrivate e' _ made isPrivate writable unrecorded =>
    have other : ¬ (e'.key == key) = true := by
      intro agrees
      rw [Table.contains_congr _ agrees, present] at unrecorded
      cases unrecorded
    exact ⟨⟨r, recorded, inherited⟩, passedOn, (get?_hold_of_ne other).trans held⟩
  | @declareLocal e' _ made isPublic notPrivate withheld =>
    have other : ¬ (e'.key == key) = true := by
      intro agrees
      rw [Table.contains_congr _ agrees, passedOn] at withheld
      cases withheld
    exact ⟨⟨r, recorded, inherited⟩, passedOn, (get?_hold_of_ne other).trans held⟩
  | @declareRecorded e' _ _ made isPublic writable notPrivate unwithheld admitted =>
    -- The snapshot refuses: the routine is recorded, inherited, and locked.
    have other : ¬ (e'.key == key) = true := by
      intro agrees
      rcases admitted with ⟨-, free⟩ | ⟨-, r', recorded', mayReplace⟩
      · rw [Table.get?_congr _ agrees, recorded] at free
        cases free
      · rw [Table.get?_congr _ agrees, recorded] at recorded'
        cases recorded'
        rw [Ledger.mayReplace, Table.get?_congr _ agrees, permission, inherited] at mayReplace
        simp at mayReplace
    refine ⟨⟨r, ?_, inherited⟩, passedOn, (get?_hold_of_ne other).trans held⟩
    rw [draft_hold, draft_withDraft, Draft.recorded, Table.get?_insert, if_neg other]
    exact recorded
  | @grant key' r' writable recorded' =>
    refine ⟨?_, passedOn, held⟩
    rw [draft_withDraft, Table.get?_insert]
    by_cases agrees : (key' == key) = true
    · rw [if_pos agrees]
      rw [Table.get?_congr _ agrees, recorded] at recorded'
      cases recorded'
      exact ⟨_, rfl, inherited⟩
    · rw [if_neg agrees]
      exact ⟨r, recorded, inherited⟩
  | @withhold key' writable =>
    rw [Event.withholds]
    cases agrees : key' == key with
    | true =>
      refine ⟨?_, held⟩
      rw [draft_withDraft, OrderedSet.contains_add, agrees, Bool.true_or]
    | false =>
      refine ⟨⟨r, ?_, inherited⟩, ?_, held⟩
      · rw [draft_withDraft, Table.get?_erase, agrees]
        exact recorded
      · rw [draft_withDraft, OrderedSet.contains_add, agrees, passedOn]
        rfl
  | skip | inherit => cases own
  | declareInert | importKey | setHooks | require | close | complete =>
    exact ⟨⟨r, recorded, inherited⟩, passedOn, held⟩

/-- **One event** moves a unit through the phases. -/
theorem step {phase : Phase} (permission : w.ledger.permissions.get? key = some false)
    (h : InPhase key e w phase) (own : event.isOwn = true) (move : Moves w event w') :
    InPhase key e w' (phase.advance (event.withholds key) (event.declares key)) := by
  cases phase with
  | locked => exact step_locked permission h own move
  | withheld => exact step_withheld h own move
  | replaced => exact step_replaced h own move

/-- **A trace** of own events moves a unit through the phases one after the other. -/
theorem run {phase : Phase} {events : List Event}
    (permission : w.ledger.permissions.get? key = some false) (h : InPhase key e w phase)
    (own : ∀ event ∈ events, event.isOwn = true) (trace : Trace w events w') :
    InPhase key e w' (Phase.run (Event.withholds key) (Event.declares key) phase events) := by
  induction trace generalizing phase with
  | nil => exact h
  | cons first rest ih =>
    refine ih (by rwa [first.ledger_eq]) (h.step permission (own _ List.mem_cons_self) first) ?_
    exact fun event member => own event (List.mem_cons_of_mem _ member)

end InPhase

end Writing

/-! ## What commands do to a key -/

/-- Whether a declaration has a variant at a key. -/
def Declaration.declares (declaration : Declaration) (key : Key) : Bool :=
  declaration.name == key.name && decide (Tree.leastArity declaration.params ≤ key.arity.toInt) &&
    decide (key.arity.toInt ≤ declaration.params.length)

namespace Command

/-- Whether a command withholds a key of a unit. -/
def withholds (unit : String) (key : Key) : Command → Bool
  | .withhold u k => u == unit && k == key
  | .run u (.withhold k) _ => u == unit && k == key
  | _ => false

/-- Whether a command declares a routine at a key of a unit. -/
def declares (unit : String) (key : Key) : Command → Bool
  | .define u declaration => u == unit && declaration.declares key
  | .run u (.define declaration) _ => u == unit && declaration.declares key
  | _ => false

/-- **Redeclaration.**  One of the commands declares a routine at a key after another one has
withheld it. -/
def Redeclares (unit : String) (key : Key) (commands : List Command) : Prop :=
  ∃ c c', [c, c'].Sublist commands ∧ c.withholds unit key = true ∧ c'.declares unit key = true

/-- Commands for other units do nothing to the key. -/
theorem withholds_of_ne {unit : String} {key : Key} {command : Command}
    (other : command.unit ≠ unit) : command.withholds unit key = false := by
  unfold withholds
  split
  · exact Bool.and_eq_false_iff.2 (.inl (beq_false_of_ne other))
  · exact Bool.and_eq_false_iff.2 (.inl (beq_false_of_ne other))
  · rfl

theorem declares_of_ne {unit : String} {key : Key} {command : Command}
    (other : command.unit ≠ unit) : command.declares unit key = false := by
  unfold declares
  split
  · exact Bool.and_eq_false_iff.2 (.inl (beq_false_of_ne other))
  · exact Bool.and_eq_false_iff.2 (.inl (beq_false_of_ne other))
  · rfl

/-- No command does both. -/
theorem withholds_and_declares (unit : String) (key : Key) (command : Command) :
    (command.withholds unit key && command.declares unit key) = false := by
  cases command with
  | run u statement spliced => cases statement <;> simp [withholds, declares]
  | _ => simp [withholds, declares]

end Command

/-- The arities of a declaration are those from the least to the number of its parameters. -/
theorem any_declares_iff (declaration : Declaration) (guards : List Tree) (body : Tree)
    (stem : String) (key : Key) :
    (∃ v ∈ Tree.expandDefaults declaration.name declaration.params guards body stem,
      (Key.ofCount declaration.name v.arity == key) = true) ↔ declaration.declares key = true := by
  have least : Tree.leastArity declaration.params + Tree.optionalCount declaration.params =
      declaration.params.length :=
    Nat.sub_add_cancel (Tree.optionalCount_le_length _)
  have arity : ∀ n : Nat, (Key.ofCount declaration.name n).arity.toInt = n := fun _ => rfl
  simp only [Declaration.declares, Bool.and_eq_true, decide_eq_true_eq, beq_iff_eq, Key.beq_iff,
    arity]
  constructor
  · rintro ⟨v, member, name, count⟩
    have name : declaration.name = key.name := name
    rcases List.mem_append.1 member with member | member
    · obtain ⟨supplied, within, rfl⟩ := List.mem_map.1 member
      have bound := List.mem_range.1 within
      have count : ((Tree.leastArity declaration.params + supplied : Nat) : Int) =
        key.arity.toInt := count
      exact ⟨⟨name, by omega⟩, by omega⟩
    · obtain rfl := List.mem_singleton.1 member
      have count : (declaration.params.length : Int) = key.arity.toInt := count
      exact ⟨⟨name, by omega⟩, by omega⟩
  · rintro ⟨⟨name, lower⟩, upper⟩
    by_cases full : key.arity.toInt = declaration.params.length
    · exact ⟨_, List.mem_append_right _ List.mem_cons_self, name, full.symm⟩
    · refine ⟨Tree.shorterVariant declaration.name declaration.params stem
        (key.arity.toInt.toNat - Tree.leastArity declaration.params),
        List.mem_append_left _ (List.mem_map_of_mem (List.mem_range.2 (by omega))), name, ?_⟩
      show ((Tree.leastArity declaration.params +
        (key.arity.toInt.toNat - Tree.leastArity declaration.params) : Nat) : Int) = _
      omega

/-- A step that succeeds withholds a key, or declares a routine at it, as the truth values say. -/
def Step.Enacts {α : Type} (key : Key) (withholds declares : Bool) (m : Step Bench α) : Prop :=
  ∀ b : Bench, b.Loaded → ∀ a b', exec m b = (.ok a, b') →
    ∃ events, b.Runs events b' ∧ (∀ event ∈ events, event.isOwn = true) ∧
      events.any (Event.withholds key) = withholds ∧ events.any (Event.declares key) = declares

namespace Step.Enacts

variable {α β : Type} {key : Key} {withholds declares : Bool}

/-- Events of other kinds do nothing to the key. -/
theorem of_performs {P : Event → Prop} {m : Step Bench α} (h : Step.Performs P m)
    (other : ∀ event, P event → event.isOwn = true ∧ event.withholds key = false ∧
      event.declares key = false) : Enacts key false false m := by
  intro b loaded a b' done
  obtain ⟨events, runs, all⟩ := h b loaded
  rw [done] at runs
  refine ⟨events, runs, fun event member => (other event (all event member)).1, ?_, ?_⟩
  · exact List.any_eq_false.2 fun event member =>
      Bool.eq_false_iff.1 (other event (all event member)).2.1
  · exact List.any_eq_false.2 fun event member =>
      Bool.eq_false_iff.1 (other event (all event member)).2.2

/-- What follows and does nothing to the key changes nothing. -/
theorem bind_other {m : Step Bench α} {f : α → Step Bench β} (h : Enacts key withholds declares m)
    (h' : ∀ a, Enacts key false false (f a)) : Enacts key withholds declares (m >>= f) := by
  intro b loaded a b' done
  rw [exec_bind] at done
  cases first : exec m b with
  | mk result b₁ =>
    rw [first] at done
    cases result with
    | error error => cases done
    | ok a₁ =>
      obtain ⟨events, runs, own, withheld, declared⟩ := h b loaded a₁ b₁ first
      obtain ⟨events', runs', own', withheld', declared'⟩ := h' a₁ b₁ runs.loaded a b' done
      refine ⟨events ++ events', runs.trans runs', fun event member => ?_, ?_, ?_⟩
      · exact (List.mem_append.1 member).elim (own event) (own' event)
      · rw [List.any_append, withheld, withheld', Bool.or_false]
      · rw [List.any_append, declared, declared', Bool.or_false]

theorem pure (a : α) : Enacts key false false (Pure.pure a : Step Bench α) :=
  of_performs (P := fun _ => False) (.of_unchanged fun _ => rfl) fun _ h => h.elim

end Step.Enacts

namespace Session

variable {key : Key}

theorem grant_enacts (k : Key) : Step.Enacts key false false (grant k) :=
  .of_performs (grant_performs k) fun _ h => h ▸ ⟨rfl, rfl, rfl⟩

/-- Withholding that succeeds withholds its key. -/
theorem withhold_enacts (k : Key) : Step.Enacts key (k == key) false (withhold k) := by
  intro b loaded a b' done
  have outcome := Bench.exec_updateDraft_runs loaded (f := fun d => Ledger.withhold d k)
    fun w _ => moves_withhold w
  rcases outcome with ⟨error, failed⟩ | ⟨b₁, done', runs⟩
  · cases failed.symm.trans done
  · cases done'.symm.trans done
    exact ⟨[.withhold k], runs, by simp [Event.isOwn], by simp [Event.withholds],
      by simp [Event.declares]⟩

/-- A declaration that succeeds declares every variant that it has. -/
theorem define_enacts (store : Store) (declaration : Declaration) (spliced : Bool) :
    Step.Enacts key false (declaration.declares key) (define store declaration spliced) := by
  intro b loaded a b' done
  rcases define_runs loaded store declaration spliced with
    ⟨error, -, failed⟩ | ⟨body, guards, units, admissions, variants, b₁, -, rfl, outcome⟩
  · cases failed.symm.trans done
  rcases outcome with ⟨done', length, runs⟩ | ⟨error, failed, -⟩
  · cases done'.symm.trans done
    refine ⟨_, runs, fun event member => ?_, ?_, ?_⟩
    · rcases List.mem_append.1 member with member | member
      · obtain ⟨v, -, admission, rfl⟩ := exists_of_mem_declarations member
        rfl
      · obtain rfl := eq_of_mem_requirement member
        rfl
    · rw [List.any_eq_false]
      intro event member
      rcases List.mem_append.1 member with member | member
      · obtain ⟨v, -, admission, rfl⟩ := exists_of_mem_declarations member
        exact Bool.false_ne_true
      · obtain rfl := eq_of_mem_requirement member
        exact Bool.false_ne_true
    · rw [Bool.eq_iff_iff, ← any_declares_iff declaration guards body b.session.config.stem key,
        List.any_eq_true]
      constructor
      · rintro ⟨event, member, declares⟩
        rcases List.mem_append.1 member with member | member
        · obtain ⟨v, variant, admission, rfl⟩ := exists_of_mem_declarations member
          exact ⟨v, variant, declares⟩
        · obtain rfl := eq_of_mem_requirement member
          cases declares
      · rintro ⟨v, variant, agrees⟩
        obtain ⟨admission, member⟩ := exists_mem_declarations declaration units length variant
        exact ⟨_, List.mem_append_left _ member, agrees⟩
  · cases failed.symm.trans done

theorem grantRecorded_enacts (name : String) (arity : Nat) (admissions : List Admission) :
    Step.Enacts key false false (grantRecorded name arity admissions) :=
  .of_performs (grantRecorded_performs name arity admissions) fun _ ⟨_, h⟩ => h ▸ ⟨rfl, rfl, rfl⟩

end Session

/-- A session that works on a command that succeeds does to the key what the command says. -/
theorem Command.work?_enacts {command : Command} {store : Store} {m : Step Bench Reply} {key : Key}
    (h : command.work? store = some m) :
    Step.Enacts key (command.withholds command.unit key) (command.declares command.unit key) m := by
  cases command with
  | openRoot | openExtension | finish => cases h
  | define unit declaration =>
    cases h
    simp only [withholds, declares, Command.unit, BEq.rfl, Bool.true_and]
    exact (Session.define_enacts store declaration false).bind_other fun _ => .pure _
  | grant unit k =>
    cases h
    exact (Session.grant_enacts k).bind_other fun _ => .pure _
  | withhold unit k =>
    cases h
    simp only [withholds, declares, Command.unit, BEq.rfl, Bool.true_and]
    exact (Session.withhold_enacts k).bind_other fun _ => .pure _
  | importRoutines unit source keys =>
    cases h
    refine Step.Enacts.bind_other ?_ fun _ => .pure _
    exact .of_performs (Session.importRoutines_performs store source keys)
      fun _ ⟨_, _, h⟩ => h ▸ ⟨rfl, rfl, rfl⟩
  | setHooks unit pre post =>
    cases h
    refine Step.Enacts.bind_other ?_ fun _ => .pure _
    exact .of_performs (Session.setHooks_performs pre post) fun _ h => h ▸ ⟨rfl, rfl, rfl⟩
  | run unit statement spliced =>
    cases h
    refine Step.Enacts.bind_other ?_ fun _ => .pure _
    cases statement with
    | define declaration =>
      simp only [withholds, declares, Command.unit, BEq.rfl, Bool.true_and]
      refine (Session.define_enacts store declaration spliced).bind_other fun admissions => ?_
      split
      · exact Session.grantRecorded_enacts _ _ admissions
      · exact .pure _
    | grant k => exact Session.grant_enacts k
    | withhold k =>
      simp only [withholds, declares, Command.unit, BEq.rfl, Bool.true_and]
      exact Session.withhold_enacts k

namespace Workspace

variable {w : Workspace}

/-- A unit that has a session is not opened again. -/
theorem Coherent.not_opened (h : w.Coherent) {unit : String} {s : Session} {reply : Reply}
    (session : w.sessions.get? unit = some s) :
    (∀ config fields, w.outcome (.openRoot config unit fields) ≠ .ok reply) ∧
      ∀ config base fields, w.outcome (.openExtension config unit base fields) ≠ .ok reply := by
  refine ⟨fun config fields ok => ?_, fun config base fields ok => ?_⟩
  · have done : (exec (opening unit (Site.openRoot config unit fields)) w).1 = .ok reply := ok
    rw [exec_opening] at done
    rcases Site.exec_openRoot_cases w.toSite config unit fields with
      ⟨error, failed, -⟩ | ⟨merged, fresh, -⟩
    · rw [failed] at done
      cases done
    · exact h.ne_of_fresh session fresh rfl
  · exact h.ne_of_fresh session (opening_of_outcome ok).1 rfl

/-- The session of a unit has done to a key what a command says. -/
def Enacted (command : Command) (key : Key) (unit : String) (before : Writing) (w : Workspace) :
    Prop :=
  ∃ s image events, w.sessions.get? unit = some s ∧ w.program.units.get? unit = some image ∧
    Trace before events ⟨s, image⟩ ∧ (∀ event ∈ events, event.isOwn = true) ∧
    events.any (Event.withholds key) = command.withholds unit key ∧
    events.any (Event.declares key) = command.declares unit key

theorem Coherent.enacted_of_runs (h : w.Coherent) {unit : String} {s : Session} {image : Image}
    (session : w.sessions.get? unit = some s) (held : w.program.units.get? unit = some image)
    {key : Key} {command : Command} {b : Bench} {events : List Event} {w' : Workspace}
    (runs : (w.bench s).Runs events b) (own : ∀ event ∈ events, event.isOwn = true)
    (withholds : events.any (Event.withholds key) = command.withholds unit key)
    (declares : events.any (Event.declares key) = command.declares unit key)
    (sessions : w'.sessions = w.sessions.insert unit b.session) (program : w'.program = b.program) :
    w'.Enacted command key unit ⟨s, image⟩ := by
  obtain ⟨image', held', trace⟩ := h.shown_after session held runs
  refine ⟨b.session, image', events, ?_, by rw [program, held'], trace, own, withholds, declares⟩
  rw [sessions, get?_sessions_insert, if_pos rfl]

/-- **One command.**  A command for a unit that succeeds does to a key what it says, and a command
for another unit does nothing to it. -/
theorem Coherent.enacts (h : w.Coherent) {unit : String} {s : Session} {image : Image}
    (session : w.sessions.get? unit = some s) (held : w.program.units.get? unit = some image)
    (key : Key) (command : Command)
    (completes : command.unit = unit → ∃ reply, w.outcome command = .ok reply) :
    (w.after command).Enacted command key unit ⟨s, image⟩ := by
  by_cases same : command.unit = unit
  · obtain ⟨reply, ok⟩ := completes same
    have works : ∀ m, command.work? w.store = some m →
        (w.after command).Enacted command key unit ⟨s, image⟩ := by
      intro m isWork
      have performed := exec_perform_of_work isWork
      rw [same, session] at performed
      have done : (exec m (w.bench s)).1 = .ok reply := by
        have ok : (exec (perform command) w).1 = .ok reply := ok
        rwa [performed] at ok
      have enacts : Step.Enacts key _ _ m := Command.work?_enacts isWork
      rw [same] at enacts
      obtain ⟨events, runs, own, withholds, declares⟩ :=
        enacts (w.bench s) (h.loaded session) reply _ (Prod.ext done rfl)
      have after : w.after command = w.withBench unit (exec m (w.bench s)).2 :=
        congrArg Prod.snd performed
      rw [after]
      exact h.enacted_of_runs session held runs own withholds declares rfl rfl
    cases command with
    | openRoot config u fields =>
      obtain rfl : u = unit := same
      exact absurd ok ((h.not_opened session).1 config fields)
    | openExtension config u base fields =>
      obtain rfl : u = unit := same
      exact absurd ok ((h.not_opened session).2 config base fields)
    | finish u =>
      obtain rfl : u = unit := same
      have ok : (exec (perform (.finish u)) w).1 = .ok reply := ok
      rcases exec_finish_cases session (h.loaded session) with
        ⟨error, b, events, failed, -, -⟩ | ⟨b, registry, done, runs, -, -, -⟩
      · rw [failed] at ok
        cases ok
      · have after : w.after (.finish u) = (w.withBench u b).publishing registry :=
          congrArg Prod.snd done
        rw [after]
        exact h.enacted_of_runs session held runs (by simp [Event.isOwn]) rfl rfl rfl rfl
    | define | grant | withhold | importRoutines | setHooks | run => exact works _ rfl
  · obtain ⟨s', image', events, session', held', trace, -, none⟩ :=
      h.session_after session held command
    obtain rfl := none same
    exact ⟨s', image', [], session', held', trace, by simp,
      (Command.withholds_of_ne same).symm, (Command.declares_of_ne same).symm⟩

/-- The commands for a unit succeed, one after the other; those for other units may fail. -/
def Completes (unit : String) : Workspace → List Command → Prop
  | _, [] => True
  | w, command :: commands =>
    (command.unit = unit → ∃ reply, w.outcome command = .ok reply) ∧
      Completes unit (w.after command) commands

/-- When all commands succeed, those for the unit do. -/
theorem completes_of_outcomes {unit : String} {commands : List Command}
    (h : ∀ outcome ∈ w.outcomes commands, ∃ reply, outcome = .ok reply) :
    Completes unit w commands := by
  induction commands generalizing w with
  | nil => trivial
  | cons command commands ih =>
    obtain ⟨first, rest⟩ := List.forall_mem_cons.1 h
    exact ⟨fun _ => first, ih rest⟩

/-- **A run of commands** moves a unit through the phases as the commands say. -/
theorem Coherent.inPhase_afterAll (h : w.Coherent) {unit : String} {key : Key} {e : Emission}
    {s : Session} {image : Image} {phase : Phase} {commands : List Command}
    (session : w.sessions.get? unit = some s) (held : w.program.units.get? unit = some image)
    (permission : s.ledger.permissions.get? key = some false)
    (inPhase : Writing.InPhase key e ⟨s, image⟩ phase)
    (completes : Completes unit w commands) :
    ∃ s' image', (w.afterAll commands).sessions.get? unit = some s' ∧
      (w.afterAll commands).program.units.get? unit = some image' ∧
      Writing.InPhase key e ⟨s', image'⟩ (Phase.run (Command.withholds unit key)
        (Command.declares unit key) phase commands) := by
  induction commands generalizing w s image phase with
  | nil => exact ⟨s, image, session, held, inPhase⟩
  | cons command commands ih =>
    obtain ⟨s', image', events, session', held', trace, own, withholds, declares⟩ :=
      h.enacts session held key command completes.1
    have ledger : s'.ledger = s.ledger := trace.ledger_eq
    have advanced := Writing.InPhase.run (w := ⟨s, image⟩) permission inPhase own trace
    rw [Phase.run_eq_advance, withholds, declares] at advanced
    · exact ih (h.after command) session' held' (by rwa [ledger]) advanced completes.2
    · rw [withholds, declares]
      exact Command.withholds_and_declares unit key command

end Workspace

/-! ## The condition -/

/-- A locked routine of the base is locked in an extension that has just been opened. -/
theorem Writing.Fresh.inPhase {config : Config} {base : Registry} {fields : Value} {unit : String}
    {resolution : Resolution} {w : Writing} (h : w.Fresh config resolution.draft)
    (resolved : resolve base fields unit config = .ok resolution) {key : Key} {r : RoutineRecord}
    (recorded : base.routines.get? key = some r) (passedOn : base.withheld.contains key = false)
    (locked : r.permitted = false) :
    w.ledger.permissions.get? key = some false ∧
      ∃ key' r' needs, (key' == key) = true ∧
        inheritRoutine config base key r = .ok (r', needs) ∧
        InPhase key (Emission.ofRecord key' r') w .locked := by
  obtain ⟨key', r', needs, agrees, becomes, recorded', held⟩ :=
    h.exists_inherited resolved recorded passedOn
  have inherited := inherited_of_inheritRoutine becomes
  have keeps := inheritRoutine_keeps becomes
  have draft : w.draft = resolution.draft := congrArg Session.draft h.session
  have ledger : w.ledger = Ledger.ofDraft config resolution.draft :=
    congrArg Session.ledger h.session
  constructor
  · rw [ledger, ← locked, ← keeps.1, ← draft]
    exact Ledger.get?_snapshot recorded' inherited
  · refine ⟨key', r', needs, agrees, becomes, ⟨r', recorded', inherited⟩, ?_, held⟩
    obtain ⟨-, -, -, -, withheld, -⟩ := draft_of_resolve resolved
    rw [draft, withheld, passedOn]

/-- In its phases a unit answers calls at the key with the inherited routine, up to the last. -/
theorem Writing.InPhase.holds_iff {key : Key} {e : Emission} {w : Writing} {phase : Phase}
    (h : InPhase key e w phase) (isPublic : e.isPrivate = false) (inherited : e.origin ≠ .native)
    (unit : String) :
    (w.image.routines.get? key = some e ∧
      ∀ caller, Program.callee w.image unit key caller = .ok e) ↔ phase ≠ .replaced := by
  have answers : w.image.routines.get? key = some e →
      w.image.routines.get? key = some e ∧
        ∀ caller, Program.callee w.image unit key caller = .ok e := by
    exact fun held => ⟨held, Program.callee_of_public held isPublic unit⟩
  cases phase with
  | locked => exact ⟨fun _ => Phase.noConfusion, fun _ => answers h.2.2⟩
  | withheld => exact ⟨fun _ => Phase.noConfusion, fun _ => answers h.2⟩
  | replaced =>
    obtain ⟨e', held, native⟩ := h
    constructor
    · rintro ⟨held', -⟩
      rw [held] at held'
      cases held'
      exact absurd native inherited
    · exact fun h => absurd rfl h

namespace Workspace

/-- **Locked routines.**  Let a unit extend a published one without hooks, and let commands be
executed that succeed as far as they are for this unit.  A routine that the base passes on without
the permission to replace it is what the image still holds, and what every caller reaches, exactly
if no command declares the key after another one has withheld it. -/
theorem Reachable.holds_inherited_iff {w : Workspace} (h : w.Reachable) {config : Config}
    {unit base : String} {fields : Value} {reply : Reply} {registry : Registry} {key : Key}
    {r : RoutineRecord} {commands : List Command}
    (published : w.store.get? base = some registry) (free : registry.HookFree)
    (opens : w.outcome (.openExtension config unit base fields) = .ok reply)
    (recorded : registry.routines.get? key = some r)
    (passedOn : registry.withheld.contains key = false) (locked : r.permitted = false)
    (completes : Completes unit (w.after (.openExtension config unit base fields)) commands) :
    ∃ key' r' needs image, (key' == key) = true ∧
      inheritRoutine config registry key r = .ok (r', needs) ∧
      (w.afterAll (.openExtension config unit base fields :: commands)).program.units.get? unit =
        some image ∧
      ((image.routines.get? key = some (Emission.ofRecord key' r') ∧
          ∀ caller, Program.callee image unit key caller = .ok (Emission.ofRecord key' r')) ↔
        ¬ Command.Redeclares unit key commands) := by
  obtain ⟨resolution, s, image, resolved, session, held, fresh⟩ :=
    opened_extension published free opens
  obtain ⟨permission, key', r', needs, agrees, becomes, inPhase⟩ :=
    fresh.inPhase resolved recorded passedOn locked
  have coherent := h.coherent.after (.openExtension config unit base fields)
  obtain ⟨s', image', -, held', inPhase'⟩ :=
    coherent.inPhase_afterAll session held permission inPhase completes
  have inherited : (Emission.ofRecord key' r').origin ≠ .native := by
    have inherited := inherited_of_inheritRoutine becomes
    rwa [RoutineRecord.inherited, bne_iff_ne] at inherited
  refine ⟨key', r', needs, image', agrees, becomes, held', ?_⟩
  rw [Command.Redeclares, ← Phase.run_locked_eq_replaced]
  exact inPhase'.holds_iff rfl inherited unit

/-- A key whose routine is locked in the extensions of the unit below. -/
def lockedKey : Key := .ofCount "greet" 0

/-- What a unit passes on that declares a routine and does not permit to replace it. -/
def lockedRegistry : Registry :=
  { unit := "base"
    routines := .ofList [(lockedKey, ⟨[], [], .literal (.text "base"), .native, false⟩)] }

/-- The workspace in which that unit is published. -/
def lockedWorkspace : Workspace :=
  afterAll ∅ [.openRoot {} "base" (.list []),
    .define "base" ⟨"greet", [], .literal (.text "base"), [], false, false⟩, .finish "base"]

/-- Opens an extension of that unit. -/
def lockedOpening : Command := .openExtension {} "child" "base" (.list [])

/-- A declaration of the extension at the key. -/
def lockedDeclaration : Declaration := ⟨"greet", [], .literal (.text "child"), [], false, false⟩

theorem published_lockedWorkspace :
    lockedWorkspace.store.get? "base" = some lockedRegistry := by
  cbv

/-- A declaration, a grant and a withholding, in this order, leave the inherited routine in its
place. -/
theorem holds_inherited_of_order :
    ∃ key' r needs image, (key' == lockedKey) = true ∧
      inheritRoutine {} lockedRegistry lockedKey
        ⟨[], [], .literal (.text "base"), .native, false⟩ = .ok (r, needs) ∧
      (lockedWorkspace.afterAll [lockedOpening, .define "child" lockedDeclaration,
        .grant "child" lockedKey, .withhold "child" lockedKey]).program.units.get? "child" =
          some image ∧
      image.routines.get? lockedKey = some (Emission.ofRecord key' r) ∧
      ∀ caller, Program.callee image "child" lockedKey caller =
        .ok (Emission.ofRecord key' r) := by
  have evaluated : lockedWorkspace.outcome lockedOpening = .ok .done ∧
      (lockedWorkspace.after lockedOpening).outcomes [.define "child" lockedDeclaration,
        .grant "child" lockedKey, .withhold "child" lockedKey] =
          [.ok (.admitted [.inert]), .ok .done, .ok .done] := by
    cbv
  obtain ⟨opens, succeed⟩ := evaluated
  have completes : Completes "child" (lockedWorkspace.after lockedOpening)
      [.define "child" lockedDeclaration, .grant "child" lockedKey,
        .withhold "child" lockedKey] := completes_of_outcomes (by simp [succeed])
  have recorded : lockedRegistry.routines.get? lockedKey =
      some ⟨[], [], .literal (.text "base"), .native, false⟩ := rfl
  have reachable : lockedWorkspace.Reachable := Reachable.empty.afterAll _
  obtain ⟨key', r, needs, image, agrees, becomes, held, holds⟩ :=
    Reachable.holds_inherited_iff reachable published_lockedWorkspace ⟨rfl, rfl⟩ opens recorded
      rfl rfl completes
  have kept : ¬ Command.Redeclares "child" lockedKey [.define "child" lockedDeclaration,
      .grant "child" lockedKey, .withhold "child" lockedKey] := by
    rw [Command.Redeclares, ← Phase.run_locked_eq_replaced]
    decide
  obtain ⟨stored, answers⟩ := holds.2 kept
  exact ⟨key', r, needs, image, agrees, becomes, held, stored, answers⟩

/-- **A locked routine can be replaced.**  If the extension withholds the key and then declares it,
both of which succeed, calls of the key no longer reach the inherited routine. -/
theorem locked_routine_replaced :
    lockedWorkspace.store.get? "base" = some lockedRegistry ∧ lockedRegistry.HookFree ∧
      (∃ r, lockedRegistry.routines.get? lockedKey = some r ∧ r.permitted = false) ∧
      lockedRegistry.withheld.contains lockedKey = false ∧
      lockedWorkspace.outcome lockedOpening = .ok .done ∧
      Completes "child" (lockedWorkspace.after lockedOpening)
        [.withhold "child" lockedKey, .define "child" lockedDeclaration] ∧
      (lockedWorkspace.after lockedOpening).program.call "child" "greet" [] =
        .ok (.text "base") ∧
      (lockedWorkspace.afterAll [lockedOpening, .withhold "child" lockedKey,
        .define "child" lockedDeclaration]).program.call "child" "greet" [] =
          .ok (.text "child") := by
  have evaluated : lockedWorkspace.outcome lockedOpening = .ok .done ∧
      (lockedWorkspace.after lockedOpening).outcomes [.withhold "child" lockedKey,
        .define "child" lockedDeclaration] = [.ok .done, .ok (.admitted [.isLocal])] ∧
      (lockedWorkspace.after lockedOpening).program.call "child" "greet" [] =
        .ok (.text "base") ∧
      (lockedWorkspace.afterAll [lockedOpening, .withhold "child" lockedKey,
        .define "child" lockedDeclaration]).program.call "child" "greet" [] =
          .ok (.text "child") := by
    cbv
  obtain ⟨opens, succeed, before, replaced⟩ := evaluated
  exact ⟨published_lockedWorkspace, ⟨rfl, rfl⟩, ⟨_, rfl, rfl⟩, rfl, opens,
    completes_of_outcomes (by simp [succeed]), before, replaced⟩

end Workspace

end Heredity
