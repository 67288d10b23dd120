import Heredity.Proofs.Operations

/-!
# What a session reads

Many sessions work on one program and read one store.  What an operation makes of a unit depends on
little of that: on the session and on the image of the unit, on the registry from which the unit
imports, and on nothing else.

* `Bench.Unseen` — a relation of benches that no operation of a session sees, but for closing.
* `define_matches`, `run_matches`, `materialize_matches` — on benches that are related so, the
  operations have the same outcome, whether they succeed or not (`Step.Matches`).
* `Bench.Alike` — two benches hold the same session and the same image of its unit.
* `Step.Agree` — where two steps succeed on benches that are alike, they have the same result and
  leave benches that are alike.
* `define_agrees`, `run_agrees`, `materialize_agrees`, `close_agrees` — the operations on two
  stores.

**On two stores only successes are compared.**  Which units are published or loaded does decide
whether a declaration that calls its base is accepted and whether a unit can be closed.  These are
checks: they let an operation fail, but never change what it writes.
-/

namespace Heredity

open Step (exec Matches)

/-! ## Relations that are not seen -/

/-- **A relation of benches that no operation of a session sees.**  Related benches have the same
draft and the same ledger, and they stay related when the same is written to both. -/
structure Bench.Unseen (R : Bench → Bench → Prop) : Prop where
  /-- The drafts are the same. -/
  draft : ∀ {b b' : Bench}, R b b' → b'.session.draft = b.session.draft
  /-- The ledgers are the same. -/
  ledger : ∀ {b b' : Bench}, R b b' → b'.session.ledger = b.session.ledger
  /-- Another draft of the unit may take the place of both. -/
  withDraft : ∀ {b b' : Bench} {d : Draft}, R b b' → d.unit = b.session.draft.unit →
    R (b.withDraft d) (b'.withDraft d)
  /-- A declaration may be listed that stayed without effect. -/
  list : ∀ {b b' : Bench} (e : Emission), R b b' →
    R { b with session := { b.session with inert := b.session.inert ++ [e] } }
      { b' with session := { b'.session with inert := b'.session.inert ++ [e] } }
  /-- A warning may be issued. -/
  warn : ∀ {b b' : Bench} (w : Option Warning), R b b' →
    R { b with warnings := b.warnings ++ w.toList } { b' with warnings := b'.warnings ++ w.toList }
  /-- A routine may be made callable on the unit. -/
  emit : ∀ {b b' : Bench} (e : Emission), R b b' →
    Matches R (Bench.updateProgram (·.emit b.unit e)) (Bench.updateProgram (·.emit b.unit e))
  /-- It may be noted what the unit requires. -/
  require : ∀ {b b' : Bench} (units : List String), R b b' →
    Matches R (Bench.updateProgram (·.require b.unit units))
      (Bench.updateProgram (·.require b.unit units))

namespace Bench.Unseen

variable {R : Bench → Bench → Prop} {b b' : Bench}

theorem unit (unseen : Unseen R) (related : R b b') : b'.unit = b.unit := by
  rw [Bench.unit, unseen.draft related]
  rfl

theorem config (unseen : Unseen R) (related : R b b') : b'.session.config = b.session.config := by
  rw [Session.config, unseen.ledger related]
  rfl

/-- Writing the draft, whatever the program is. -/
theorem updateDraft (unseen : Unseen R) {f : Draft → Except Error Draft}
    (keeps : ∀ d d', f d = .ok d' → d'.unit = d.unit) :
    Matches R (Bench.updateDraft f) (Bench.updateDraft f) := by
  intro b b' related
  rw [Bench.exec_updateDraft, Bench.exec_updateDraft, unseen.draft related]
  cases updated : f b.session.draft with
  | error e => exact ⟨rfl, related⟩
  | ok d => exact ⟨rfl, unseen.withDraft related (keeps _ _ updated)⟩

theorem of_moves (unseen : Unseen R) {f : Draft → Except Error Draft} {event : Event}
    (move : ∀ w : Writing, ∀ d, f w.draft = .ok d → Moves w event (w.withDraft d)) :
    Matches R (Bench.updateDraft f) (Bench.updateDraft f) :=
  unseen.updateDraft fun d d' written => (move (.opened {} d) d' written).unit_eq

end Bench.Unseen

/-- A result that is the same on both benches is lifted. -/
theorem Step.Matches.lift_same {α β : Type} {R : Bench → Bench → Prop} {r : Except Error α}
    {f f' : α → Step Bench β} (h : ∀ a, r = .ok a → Matches R (f a) (f' a)) :
    Matches R (Bench.lift r >>= f) (Bench.lift r >>= f') := by
  refine .lift_bind ?_
  cases r with
  | error e => exact .inl ⟨e, rfl, rfl⟩
  | ok a => exact .inr ⟨a, a, rfl, rfl, h a rfl⟩

/-! ## Operations -/

/-- What the ledger lets into a draft leaves the name of the unit. -/
theorem Ledger.unit_of_declare {l : Ledger} {d d' : Draft} {e : Emission} {spliced : Bool}
    {admission : Admission} {warning : Option Warning}
    (h : l.declare d e.key e.params e.guards e.body spliced = .ok (admission, warning, d')) :
    d'.unit = d.unit := by
  obtain ⟨⟨admission', warning'⟩, assessed, -⟩ := exists_of_bind_eq_ok h
  cases recorded : admission'.isRecorded with
  | false =>
    cases (declare_of_unrecorded assessed recorded).symm.trans h
    rfl
  | true =>
    rw [declare_of_recorded assessed recorded] at h
    split at h
    · cases h
    · cases h
      rfl

namespace Session

variable {R : Bench → Bench → Prop} (unseen : Bench.Unseen R)

include unseen

theorem declarePrivate_matches (e : Emission) :
    Matches R (declarePrivate e) (declarePrivate e) := by
  refine .get_bind fun b b' related => ?_
  rw [unseen.draft related, unseen.unit related]
  split
  · exact .throw_bind _ _ _
  · refine Matches.bind (unseen.updateDraft fun d d' written => ?_) fun _ => .pure _
    exact (ensureOpen_bind_eq_ok written).2 ▸ rfl

theorem declarePublic_matches (e : Emission) (units : NameSet) (spliced : Bool) :
    Matches R (declarePublic e units spliced) (declarePublic e units spliced) := by
  refine .get_bind fun b b' related => ?_
  rw [unseen.draft related, unseen.ledger related, unseen.unit related]
  split
  · exact .throw_bind _ _ _
  · refine .lift_same ?_
    rintro ⟨admission, warning, d⟩ admitted
    refine .set_bind (unseen.withDraft related (Ledger.unit_of_declare admitted)) ?_
    refine Matches.bind (.modify fun c c' => unseen.warn warning) fun _ => ?_
    split
    · refine Matches.bind (unseen.updateDraft fun d d' written => ?_) fun _ => .pure _
      exact (ensureOpen_bind_eq_ok written).2 ▸ rfl
    · exact .pure _

theorem deliver_matches (e : Emission) (admission : Admission) :
    Matches R (deliver e admission) (deliver e admission) := by
  have put : Matches R (do let b ← get; Bench.updateProgram (·.emit b.unit e))
      (do let b ← get; Bench.updateProgram (·.emit b.unit e)) := by
    refine .get_bind fun b b' related => ?_
    rw [unseen.unit related]
    exact unseen.emit e related
  cases admission with
  | inert => exact .modify fun b b' => unseen.list e
  | record | replace | isLocal => exact put

theorem declareVariant_matches (declaration : Declaration) (units : NameSet) (spliced : Bool)
    (v : Tree.Variant) :
    Matches R (declareVariant declaration units spliced v)
      (declareVariant declaration units spliced v) := by
  have delivered : ∀ e admission, Matches R
      (do deliver e admission; return admission) (do deliver e admission; return admission) :=
    fun e admission => (deliver_matches unseen e admission).bind fun _ => .pure _
  unfold declareVariant
  dsimp only
  split
  · exact (declarePrivate_matches unseen _).bind (delivered _)
  · exact (declarePublic_matches unseen _ _ _).bind (delivered _)

/-- What follows the preparation of a declaration. -/
theorem declareVariants_matches {b b' : Bench} (related : R b b') (declaration : Declaration)
    (units : NameSet) (spliced : Bool) (variants : List Tree.Variant) :
    Matches R
      (do
        let admissions ← variants.mapM (declareVariant declaration units spliced)
        if !units.isEmpty then Bench.updateProgram (·.require b.unit units.toList)
        return admissions)
      (do
        let admissions ← variants.mapM (declareVariant declaration units spliced)
        if !units.isEmpty then Bench.updateProgram (·.require b'.unit units.toList)
        return admissions) := by
  refine Matches.bind (.mapM fun v _ => declareVariant_matches unseen declaration units spliced v)
    fun _ => ?_
  rw [unseen.unit related]
  split
  · exact (unseen.require units.toList related).bind fun _ => .pure _
  · exact .pure _

/-- **Declaring.** -/
theorem define_matches (store : Store) (declaration : Declaration) (spliced : Bool) :
    Matches R (define store declaration spliced) (define store declaration spliced) := by
  refine .get_bind fun b b' related => ?_
  rw [unseen.draft related, unseen.config related]
  exact .lift_same fun _ _ => declareVariants_matches unseen related declaration _ spliced _

theorem grant_matches (key : Key) : Matches R (grant key) (grant key) :=
  unseen.of_moves moves_grant

theorem withhold_matches (key : Key) : Matches R (withhold key) (withhold key) :=
  unseen.of_moves moves_withhold

theorem setHooks_matches (pre post : Option Hook) :
    Matches R (setHooks pre post) (setHooks pre post) :=
  unseen.of_moves moves_setHooks

theorem importRoutine_matches (source : Registry) (key : Key) :
    Matches R (importRoutine source key) (importRoutine source key) := by
  unfold importRoutine
  split
  · exact unseen.of_moves moves_importKey
  · exact .throw _

/-- **Importing** reads the registry of the source. -/
theorem importRoutines_matches {store store' : Store} {source : Value}
    (same : ∀ t, source = .text t → store'.get? t = store.get? t) (keys : Option (List Key)) :
    Matches R (importRoutines store source keys) (importRoutines store' source keys) := by
  refine .get_bind fun b b' related => ?_
  rw [unseen.unit related]
  have read : store'.requireValue source b.unit = store.requireValue source b.unit := by
    cases source with
    | text t => simp only [Store.requireValue, Store.require, same t rfl]
    | _ => rfl
  rw [read]
  exact .lift_same fun registry _ => .forM fun key _ => importRoutine_matches unseen registry key

theorem grantRecorded_matches (routine : String) (arity : Nat) (admissions : List Admission) :
    Matches R (grantRecorded routine arity admissions)
      (grantRecorded routine arity admissions) := by
  induction admissions generalizing arity with
  | nil => exact .pure _
  | cons admission admissions ih =>
    unfold grantRecorded
    split
    · exact (grant_matches unseen _).bind fun _ => ih (arity + 1)
    · exact ih (arity + 1)

/-- What follows the declaration in a statement. -/
theorem grantOverridable_matches (declaration : Declaration) (admissions : List Admission) :
    Matches R
      (if declaration.overridable then
        grantRecorded declaration.name (Tree.leastArity declaration.params) admissions else pure ())
      (if declaration.overridable then
        grantRecorded declaration.name (Tree.leastArity declaration.params) admissions
        else pure ()) := by
  split
  · exact grantRecorded_matches unseen _ _ _
  · exact .pure _

/-- **Statements.** -/
theorem run_matches (store : Store) (spliced : Bool) (statement : Statement) :
    Matches R (run store spliced statement) (run store spliced statement) := by
  cases statement with
  | define declaration =>
    exact (define_matches unseen store declaration spliced).bind
      (grantOverridable_matches unseen declaration)
  | grant key => exact grant_matches unseen key
  | withhold key => exact withhold_matches unseen key

theorem splice_matches (store : Store) (hooks : List Hook) :
    Matches R (splice store hooks) (splice store hooks) :=
  .forM fun _ _ => .forM fun statement _ => run_matches unseen store true statement

theorem emitInherited_matches (e : Emission) :
    Matches R (emitInherited e) (emitInherited e) := by
  refine .get_bind fun b b' related => ?_
  rw [unseen.draft related, unseen.unit related]
  split
  · exact .pure _
  · exact unseen.emit e related

/-- What follows the first hooks. -/
theorem materializeRest_matches (store : Store) (emissions : EmissionList) :
    Matches R
      (do
        emissions.routines.forM emitInherited
        let b ← get
        Bench.updateProgram (·.require b.unit emissions.requires)
        splice store emissions.postHooks)
      (do
        emissions.routines.forM emitInherited
        let b ← get
        Bench.updateProgram (·.require b.unit emissions.requires)
        splice store emissions.postHooks) := by
  refine Matches.bind (.forM fun e _ => emitInherited_matches unseen e) fun _ => ?_
  refine .get_bind fun b b' related => ?_
  rw [unseen.unit related]
  exact (unseen.require _ related).bind fun _ => splice_matches unseen store _

/-- **Putting in place what is inherited.** -/
theorem materialize_matches (store : Store) (emissions : EmissionList) :
    Matches R (materialize store emissions) (materialize store emissions) :=
  (splice_matches unseen store _).bind fun _ => materializeRest_matches unseen store emissions

end Session

/-! ## Steps on two benches -/

/-- Two benches hold the same session, and their programs hold the same image of its unit. -/
structure Bench.Alike (name : String) (b b' : Bench) : Prop where
  /-- The unit has the given name. -/
  unit : b.unit = name
  /-- The sessions are the same. -/
  session : b'.session = b.session
  /-- The images are the same. -/
  image : b'.program.units.get? name = b.program.units.get? name

namespace Bench.Alike

variable {name : String} {b b' : Bench}

theorem unit' (h : b.Alike name b') : b'.unit = name := by
  rw [Bench.unit, h.session]
  exact h.unit

theorem withDraft (h : b.Alike name b') {d : Draft} (unit : d.unit = b.session.draft.unit) :
    (b.withDraft d).Alike name (b'.withDraft d) :=
  ⟨unit.trans h.unit, by rw [Bench.withDraft, h.session]; rfl, h.image⟩

end Bench.Alike

/-- **Steps that agree on a unit.**  From benches that are alike, they have the same result and
leave benches that are alike, unless one of them fails. -/
def Step.Agree {α : Type} (name : String) (m m' : Step Bench α) : Prop :=
  ∀ ⦃b b' c c' : Bench⦄ ⦃a a' : α⦄, b.Alike name b' → exec m b = (.ok a, c) →
    exec m' b' = (.ok a', c') → a' = a ∧ c.Alike name c'

/-- A change of a program puts another image in the place of the image of a unit; what the new image
is depends on the old one only. -/
def Program.Writes (name : String) (f : Program → Except Error Program) (g : Image → Image) :
    Prop :=
  ∀ p p', f p = .ok p' → ∃ image, p.units.get? name = some image ∧ p' = p.setImage name (g image)

namespace Step.Agree

variable {α β : Type} {name : String}

theorem pure (a : α) : Agree name (Pure.pure a) (Pure.pure a) := by
  intro b b' c c' x x' alike done done'
  cases done
  cases done'
  exact ⟨rfl, alike⟩

theorem bind {m m' : Step Bench α} {f f' : α → Step Bench β} (h : Agree name m m')
    (h' : ∀ a, Agree name (f a) (f' a)) : Agree name (m >>= f) (m' >>= f') := by
  intro b b' c c' x x' alike done done'
  obtain ⟨a, b₁, first, rest⟩ := exists_of_exec_bind_eq_ok done
  obtain ⟨a', b₁', first', rest'⟩ := exists_of_exec_bind_eq_ok done'
  obtain ⟨rfl, alike₁⟩ := h alike first first'
  exact h' _ alike₁ rest rest'

theorem get_bind {f f' : Bench → Step Bench α}
    (h : ∀ b b', b.Alike name b' → Agree name (f b) (f' b')) :
    Agree name (get >>= f) (get >>= f') :=
  fun b b' _ _ _ _ alike done done' => h b b' alike alike done done'

theorem lift_bind {r r' : Except Error α} {f f' : α → Step Bench β}
    (same : ∀ a a', r = .ok a → r' = .ok a' → a' = a)
    (h : ∀ a, r = .ok a → Agree name (f a) (f' a)) :
    Agree name (Bench.lift r >>= f) (Bench.lift r' >>= f') := by
  intro b b' c c' x x' alike done done'
  cases first : r with
  | error e =>
    rw [first] at done
    cases done
  | ok a =>
    cases first' : r' with
    | error e =>
      rw [first'] at done'
      cases done'
    | ok a' =>
      obtain rfl := same a a' first first'
      rw [first] at done
      rw [first'] at done'
      exact h _ first alike done done'

theorem set_bind {c c' : Bench} {f f' : PUnit → Step Bench α} (alike : c.Alike name c')
    (h : Agree name (f ⟨⟩) (f' ⟨⟩)) : Agree name (set c >>= f) (set c' >>= f') :=
  fun _ _ _ _ _ _ _ done done' => h alike done done'

theorem forM {f f' : α → Step Bench Unit} {xs : List α}
    (h : ∀ x ∈ xs, Agree name (f x) (f' x)) : Agree name (xs.forM f) (xs.forM f') := by
  induction xs with
  | nil => exact pure _
  | cons x xs ih =>
    exact (h x List.mem_cons_self).bind fun _ => ih fun y hy => h y (List.mem_cons_of_mem x hy)

/-- Writing the image, whatever else the program holds. -/
theorem updateProgram {f : Program → Except Error Program} {g : Image → Image}
    (writes : Program.Writes name f g) :
    Agree name (Bench.updateProgram f) (Bench.updateProgram f) := by
  intro b b' c c' x x' alike done done'
  rw [Bench.exec_updateProgram] at done done'
  cases updated : f b.program with
  | error e =>
    rw [updated] at done
    cases done
  | ok p =>
    cases updated' : f b'.program with
    | error e =>
      rw [updated'] at done'
      cases done'
    | ok p' =>
      rw [updated] at done
      rw [updated'] at done'
      cases done
      cases done'
      obtain ⟨image, held, rfl⟩ := writes _ _ updated
      obtain ⟨image', held', rfl⟩ := writes _ _ updated'
      obtain rfl : image' = image := Option.some.inj (held'.symm.trans (alike.image.trans held))
      exact ⟨rfl, alike.unit, alike.session, by simp⟩

end Step.Agree

/-- Steps that have the same outcome agree. -/
theorem Step.Matches.agree {α : Type} {name : String} {m m' : Step Bench α}
    (h : Matches (Bench.Alike name) m m') : Agree name m m' := by
  intro b b' c c' a a' alike done done'
  obtain ⟨same, alike'⟩ := h alike
  rw [done, done'] at same alike'
  cases same
  exact ⟨rfl, alike'⟩

/-- Writing the image, whatever else the program holds. -/
theorem Bench.updateImage_alike {name : String} (g : Image → Image) :
    Matches (Bench.Alike name)
      (Bench.updateProgram fun p => do return p.setImage name (g (← p.image name)))
      (Bench.updateProgram fun p => do return p.setImage name (g (← p.image name))) := by
  intro b b' alike
  rw [Bench.exec_updateProgram, Bench.exec_updateProgram]
  have same : b'.program.image name = b.program.image name := by
    rw [Program.image, alike.image]
    rfl
  rw [same]
  cases b.program.image name with
  | error e => exact ⟨rfl, alike⟩
  | ok image => exact ⟨rfl, alike.unit, alike.session, by simp⟩

/-- **What the benches have in common** is all that the operations of a session see. -/
theorem Bench.unseen_alike (name : String) : Bench.Unseen (Bench.Alike name) where
  draft alike := congrArg Session.draft alike.session
  ledger alike := congrArg Session.ledger alike.session
  withDraft alike unit := alike.withDraft unit
  list e alike := ⟨alike.unit, by dsimp only; rw [alike.session], alike.image⟩
  warn w alike := ⟨alike.unit, alike.session, alike.image⟩
  emit e alike := by
    rw [alike.unit]
    exact Bench.updateImage_alike _
  require units alike := by
    rw [alike.unit]
    exact Bench.updateImage_alike _

namespace Program

variable {name : String}

theorem get?_of_image {p : Program} {image : Image} (h : p.image name = .ok image) :
    p.units.get? name = some image := by
  unfold Program.image at h
  split at h
  · next found =>
    cases h
    exact found
  · cases h

theorem writes_closeUnit (name : String) (registry : Registry) :
    Writes name (·.closeUnit name registry) fun i =>
      { i with withheld := registry.withheld, closed := true } := by
  intro p p' done
  obtain ⟨old, found, -⟩ := exists_of_bind_eq_ok done
  have held := get?_of_image found
  refine ⟨old, held, ?_⟩
  rcases closeUnit_cases registry held with ⟨-, refused⟩ | completed
  · cases refused.symm.trans done
  · exact Except.ok.inj (done.symm.trans completed)

end Program

/-! ## Operations on two stores -/

namespace Session

open Step (Agree)
open Bench (unseen_alike)

variable {name : String}

theorem eq_of_forall₂ {α β : Type} {R S : α → β → Prop} {xs : List α} {ys ys' : List β}
    (h : List.Forall₂ R xs ys) (h' : List.Forall₂ S xs ys')
    (unique : ∀ x y y', R x y → S x y' → y' = y) : ys' = ys := by
  induction h generalizing ys' with
  | nil =>
    cases h'
    rfl
  | cons first _ ih =>
    cases h' with
    | cons first' rest => rw [unique _ _ _ first first', ih rest]

/-- **Preparing** reads the store only to check the calls of the replaced routine. -/
theorem prepare_unique {store store' : Store} {d : Draft} {routine : String} {expr : Tree}
    {result result' : Tree × NameSet} (h : prepare store d routine expr = .ok result)
    (h' : prepare store' d routine expr = .ok result') : result' = result := by
  obtain ⟨_, -, rest⟩ := exists_of_bind_eq_ok h
  obtain ⟨_, -, rest'⟩ := exists_of_bind_eq_ok h'
  exact Except.ok.inj (rest'.symm.trans rest)

theorem prepareAll_unique {store store' : Store} {d : Draft} {declaration : Declaration}
    {result result' : Tree × List Tree × NameSet}
    (h : prepareAll store d declaration = .ok result)
    (h' : prepareAll store' d declaration = .ok result') : result' = result := by
  obtain ⟨body, ofBody, rest⟩ := exists_of_bind_eq_ok h
  obtain ⟨body', ofBody', rest'⟩ := exists_of_bind_eq_ok h'
  obtain ⟨guards, ofGuards, rest⟩ := exists_of_bind_eq_ok rest
  obtain ⟨guards', ofGuards', rest'⟩ := exists_of_bind_eq_ok rest'
  obtain rfl := prepare_unique ofBody ofBody'
  have each := forall₂_of_mapM_eq_ok ofGuards
  have each' := forall₂_of_mapM_eq_ok ofGuards'
  obtain rfl := eq_of_forall₂ each each' fun _ _ _ => prepare_unique
  exact Except.ok.inj (rest'.symm.trans rest)

/-- **Declaring** reads no more of the store than what it says of the base. -/
theorem define_agrees (store store' : Store) (declaration : Declaration) (spliced : Bool) :
    Agree name (define store declaration spliced) (define store' declaration spliced) := by
  refine .get_bind fun b b' alike => ?_
  rw [alike.session]
  refine .lift_bind (fun a a' => prepareAll_unique) fun _ _ => ?_
  exact (declareVariants_matches (unseen_alike name) alike declaration _ spliced _).agree

/-- **Statements** read no store. -/
theorem run_agrees (store store' : Store) (spliced : Bool) (statement : Statement) :
    Agree name (run store spliced statement) (run store' spliced statement) := by
  cases statement with
  | define declaration =>
    exact (define_agrees store store' declaration spliced).bind fun admissions =>
      (grantOverridable_matches (unseen_alike name) declaration admissions).agree
  | grant key => exact (grant_matches (unseen_alike name) key).agree
  | withhold key => exact (withhold_matches (unseen_alike name) key).agree

theorem splice_agrees (store store' : Store) (hooks : List Hook) :
    Agree name (splice store hooks) (splice store' hooks) :=
  .forM fun _ _ => .forM fun statement _ => run_agrees store store' true statement

/-- **Putting in place what is inherited** reads no store. -/
theorem materialize_agrees (store store' : Store) (emissions : EmissionList) :
    Agree name (materialize store emissions) (materialize store' emissions) := by
  have inherited : Matches (Bench.Alike name) (emissions.routines.forM emitInherited)
      (emissions.routines.forM emitInherited) :=
    .forM fun e _ => emitInherited_matches (unseen_alike name) e
  refine (splice_agrees store store' _).bind fun _ => inherited.agree.bind fun _ => ?_
  refine .get_bind fun b b' alike => ?_
  rw [(unseen_alike name).unit alike]
  exact ((unseen_alike name).require _ alike).agree.bind fun _ => splice_agrees store store' _

/-- **Closing** reads which units are loaded, but what it writes does not depend on that. -/
theorem close_agrees : Agree name close close := by
  refine .get_bind fun b b' alike => ?_
  rw [alike.session, alike.unit, alike.unit']
  refine .lift_bind (fun a a' done done' => Except.ok.inj (done'.symm.trans done)) ?_
  rintro ⟨registry, d⟩ sealed
  obtain ⟨-, -, -, rfl⟩ := Draft.close_eq_ok sealed
  refine .set_bind (alike.withDraft rfl) ?_
  exact (Agree.updateProgram (Program.writes_closeUnit name registry)).bind fun _ => .pure _

end Session

end Heredity
