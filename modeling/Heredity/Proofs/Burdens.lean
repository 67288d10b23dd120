import Mathlib
import Heredity.Proofs.Interleaving

/-!
# Additional requirements

What a unit requires is noted in its image, and it is read once: when the unit is finished.  This
file compares workspaces that are the same but for a *burden*, some units that one image requires in
addition.

* `Image.Burdened`, `Program.Burdened`, `Session.Burdened`, `Bench.Burdened`, `Workspace.Burdened` —
  the second of the two has the burden.
* `Bench.unseen_burdened` — no operation of a session sees it.
* `Program.Covers` — a requirement makes no difference, since it is fulfilled or there anyway.
* `Burdened.after`, `Burdened.afterAll` — commands have the same outcomes with the burden as without
  it, as long as the unit is finished only while the burden is covered.
* `Burdened.finish_refused` — where it is not covered, finishing is refused instead.

**Declarations without effect and warnings** are part of the comparison as well: the side with the
burden may have more of them.  No operation reads either.
-/

namespace Heredity

open Step (exec Matches)

/-! ## Additional requirements -/

/-- The second image is the first one, but that it also requires the given units. -/
def Image.Burdened (units : List String) (image image' : Image) : Prop :=
  ∃ requires : NameSet, image' = { image with requires := requires } ∧
    ∀ u, requires.contains u = true ↔ image.requires.contains u = true ∨ u ∈ units

/-- Two programs are the same, but that the image of one unit also requires the given units in the
second one. -/
structure Program.Burdened (unit : String) (units : List String) (p p' : Program) : Prop where
  /-- The images of the unit. -/
  image : ∃ image image', p.units.get? unit = some image ∧ p'.units.get? unit = some image' ∧
    image.Burdened units image'
  /-- The other images are the same. -/
  elsewhere : ∀ u, u ≠ unit → p'.units.get? u = p.units.get? u

/-- Two sessions are the same, but that more declarations may have stayed without effect in the
second one. -/
structure Session.Burdened (s s' : Session) : Prop where
  /-- The drafts are the same. -/
  draft : s'.draft = s.draft
  /-- The ledgers are the same. -/
  ledger : s'.ledger = s.ledger
  /-- No declaration without effect is lost. -/
  inert : s.inert.Sublist s'.inert

/-- Two benches are the same, but for the additional requirements of one unit, for more warnings,
and, if the session is that of the unit, for more declarations without effect. -/
structure Bench.Burdened (unit : String) (units : List String) (b b' : Bench) : Prop where
  /-- The sessions. -/
  session : b.session.Burdened b'.session
  /-- The session of another unit is the same. -/
  foreign : b.unit ≠ unit → b'.session = b.session
  /-- The programs. -/
  program : b.program.Burdened unit units b'.program
  /-- No warning is lost. -/
  warnings : b.warnings.Sublist b'.warnings

theorem Image.burdened_nil (image : Image) : image.Burdened [] image :=
  ⟨image.requires, rfl, fun _ => (or_iff_left List.not_mem_nil).symm⟩

theorem Image.burdened_addAll (image : Image) (units : List String) :
    image.Burdened units { image with requires := image.requires.addAll units } := by
  refine ⟨_, rfl, fun u => ?_⟩
  rw [OrderedSet.contains_addAll, Bool.or_eq_true, or_comm]
  simp

theorem Session.Burdened.refl (s : Session) : s.Burdened s := ⟨rfl, rfl, .refl _⟩

namespace Program.Burdened

variable {unit u : String} {units : List String} {p p' : Program}

theorem contains (h : p.Burdened unit units p') (u : String) : p'.contains u = p.contains u := by
  show p'.units.contains u = p.units.contains u
  rw [← Table.get?_isSome, ← Table.get?_isSome]
  by_cases same : u = unit
  · obtain ⟨_, _, held, held', -⟩ := h.image
    rw [same, held, held']
    rfl
  · rw [h.elsewhere u same]

/-- Two images of a unit, with a burden or the same. -/
theorem images (h : p.Burdened unit units p') (u : String) :
    (p.units.get? u = none ∧ p'.units.get? u = none) ∨
      ∃ image image', p.units.get? u = some image ∧ p'.units.get? u = some image' ∧
        if u = unit then image.Burdened units image' else image' = image := by
  by_cases same : u = unit
  · obtain ⟨image, image', held, held', burdened⟩ := h.image
    subst same
    exact .inr ⟨image, image', held, held', by rwa [if_pos rfl]⟩
  · rw [h.elsewhere u same]
    cases held : p.units.get? u with
    | none => exact .inl ⟨rfl, rfl⟩
    | some image => exact .inr ⟨image, image, rfl, rfl, by rw [if_neg same]⟩

/-- Writing two images of a unit. -/
theorem setImage (h : p.Burdened unit units p') {image image' : Image}
    (both : if u = unit then image.Burdened units image' else image' = image) :
    (p.setImage u image).Burdened unit units (p'.setImage u image') := by
  constructor
  · by_cases same : u = unit
    · rw [if_pos same] at both
      refine ⟨image, image', ?_, ?_, both⟩
      · rw [get?_setImage, if_pos same]
      · rw [get?_setImage, if_pos same]
    · obtain ⟨own, own', held, held', burdened⟩ := h.image
      refine ⟨own, own', ?_, ?_, burdened⟩
      · rw [get?_setImage, if_neg same, held]
      · rw [get?_setImage, if_neg same, held']
  · intro other ne
    rw [get?_setImage, get?_setImage]
    split
    · next same =>
      rw [if_neg (same ▸ ne)] at both
      rw [both]
    · exact h.elsewhere other ne

/-- Writing two images of a unit in the same way. -/
theorem setImage_map (h : p.Burdened unit units p') {g : Image → Image}
    (keeps : ∀ {image image'}, image.Burdened units image' → (g image).Burdened units (g image'))
    {image image' : Image}
    (both : if u = unit then image.Burdened units image' else image' = image) :
    (p.setImage u (g image)).Burdened unit units (p'.setImage u (g image')) := by
  refine h.setImage ?_
  by_cases same : u = unit
  · rw [if_pos same] at both ⊢
    exact keeps both
  · rw [if_neg same] at both ⊢
    rw [both]

/-- What a unit lacks is the same if the additional requirements are required anyway or loaded. -/
theorem missing_eq (h : p.Burdened unit units p') {image image' : Image}
    (both : image.Burdened units image')
    (covered : ∀ u ∈ units, p.contains u = true ∨ image.requires.contains u = true) :
    p'.missing image' = p.missing image := by
  obtain ⟨requires, rfl, more⟩ := both
  have sorted : ∀ (q : Program) (i : Image), (q.missing i).Pairwise (· < ·) :=
    fun q i => (NameSet.pairwise_sorted i.requires).filter _
  refine (sorted _ _).eq_of_mem_iff (sorted _ _) fun u => ?_
  rw [mem_missing_iff, mem_missing_iff, h.contains]
  refine and_congr_left fun unloaded => (more u).trans (or_iff_left_of_imp fun listed => ?_)
  exact (covered u listed).resolve_left (Bool.eq_false_iff.1 unloaded)

end Program.Burdened

namespace Bench

variable {unit : String} {units : List String} {b b' : Bench}

/-- Writing the image of any unit, in the same way in both programs. -/
theorem updateImage_burdened (name : String) (g : Image → Image)
    (keeps : ∀ {image image'}, image.Burdened units image' → (g image).Burdened units (g image')) :
    Matches (Burdened unit units)
      (updateProgram fun p => do return p.setImage name (g (← p.image name)))
      (updateProgram fun p => do return p.setImage name (g (← p.image name))) := by
  intro b b' burdened
  rw [exec_updateProgram, exec_updateProgram]
  rcases burdened.program.images name with ⟨none, none'⟩ | ⟨image, image', held, held', both⟩
  · rw [Program.image, Program.image, none, none']
    exact ⟨rfl, burdened⟩
  · rw [Program.image_eq_ok held, Program.image_eq_ok held']
    exact ⟨rfl, burdened.session, burdened.foreign, burdened.program.setImage_map keeps both,
      burdened.warnings⟩

/-- **No operation of a session sees the burden.** -/
theorem unseen_burdened (unit : String) (units : List String) :
    Unseen (Burdened unit units) where
  draft burdened := burdened.session.draft
  ledger burdened := burdened.session.ledger
  withDraft {b b' d} burdened isUnit := by
    refine ⟨⟨rfl, burdened.session.ledger, burdened.session.inert⟩, fun other => ?_,
      burdened.program, burdened.warnings⟩
    have same := burdened.foreign fun own => other (isUnit.trans own)
    rw [withDraft, same]
    rfl
  list e burdened := by
    refine ⟨⟨burdened.session.draft, burdened.session.ledger, ?_⟩, fun other => ?_,
      burdened.program, burdened.warnings⟩
    · exact burdened.session.inert.append_right [e]
    · dsimp only
      rw [burdened.foreign other]
  warn w burdened :=
    ⟨burdened.session, burdened.foreign, burdened.program, burdened.warnings.append_right w.toList⟩
  emit e _ := by
    refine updateImage_burdened _ _ ?_
    rintro image _ ⟨requires, rfl, more⟩
    exact ⟨requires, rfl, more⟩
  require {b b'} names _ := by
    refine updateImage_burdened b.unit _ ?_
    rintro image _ ⟨requires, rfl, more⟩
    refine ⟨_, rfl, fun u => ?_⟩
    dsimp only
    rw [OrderedSet.contains_addAll, OrderedSet.contains_addAll, Bool.or_eq_true, Bool.or_eq_true,
      more, or_assoc]

end Bench

/-! ## Closing -/

/-- That a unit requires another one as well makes no difference: the other is loaded, or it is
required anyway. -/
def Program.Covers (p : Program) (unit u : String) : Prop :=
  p.contains u = true ∨
    ∃ image, p.units.get? unit = some image ∧ image.requires.contains u = true

/-- Closing keeps the name of the unit. -/
theorem Session.unit_close (b : Bench) : (exec Session.close b).2.unit = b.unit := by
  rw [Session.exec_close]
  cases sealed : b.session.draft.close with
  | error e => rfl
  | ok result =>
    obtain ⟨registry, d⟩ := result
    obtain ⟨-, -, -, rfl⟩ := Draft.close_eq_ok sealed
    dsimp only
    cases b.program.closeUnit b.unit registry <;> rfl

namespace Bench.Burdened

variable {unit : String} {units : List String} {b b' : Bench}

theorem unit_eq (h : b.Burdened unit units b') : b'.unit = b.unit :=
  (unseen_burdened unit units).unit h

/-- **Closing** succeeds on both benches or on none, if the additional requirements are covered. -/
theorem close (h : b.Burdened unit units b')
    (covered : b.unit = unit → ∀ u ∈ units, b.program.Covers unit u) :
    (exec Session.close b').1 = (exec Session.close b).1 ∧
      (exec Session.close b).2.Burdened unit units (exec Session.close b').2 := by
  rw [Session.exec_close, Session.exec_close, h.session.draft, h.unit_eq]
  cases sealed : b.session.draft.close with
  | error e => exact ⟨rfl, h⟩
  | ok result =>
    obtain ⟨registry, d⟩ := result
    obtain ⟨-, -, -, rfl⟩ := Draft.close_eq_ok sealed
    have closed := (unseen_burdened unit units).withDraft h
      (d := { b.session.draft with closed := true }) rfl
    dsimp only
    rcases h.program.images b.unit with ⟨none, none'⟩ | ⟨image, image', held, held', both⟩
    · simp only [Program.closeUnit, Program.image, none, none']
      exact ⟨rfl, closed⟩
    · have lacks : b'.program.missing image' = b.program.missing image := by
        split at both
        · next own =>
          refine h.program.missing_eq both fun u listed => (covered own u listed).imp_right ?_
          rintro ⟨image₁, held₁, required⟩
          rw [← own, held] at held₁
          cases held₁
          exact required
        · subst both
          simp only [Program.missing, h.program.contains]
      rw [Program.closeUnit_eq _ held, Program.closeUnit_eq _ held', lacks]
      by_cases complete : b.program.missing image = []
      · rw [if_pos complete, if_pos complete]
        refine ⟨rfl, closed.session, closed.foreign, ?_, h.warnings⟩
        refine h.program.setImage_map
          (g := fun i => { i with withheld := registry.withheld, closed := true }) ?_ both
        rintro image _ ⟨requires, rfl, more⟩
        exact ⟨requires, rfl, more⟩
      · rw [if_neg complete, if_neg complete]
        exact ⟨rfl, closed⟩

/-- **Where the burden counts.**  What could be closed is refused for the additional requirements
that are not loaded. -/
theorem close_refused (h : b.Burdened unit units b') (own : b.unit = unit) {registry : Registry}
    (done : (exec Session.close b).1 = .ok registry)
    (lacking : ∃ u ∈ units, b.program.contains u = false) :
    ∃ missing, (exec Session.close b').1 = .error (.requirementsNotLoaded unit missing) ∧
      ∀ u, u ∈ missing ↔ u ∈ units ∧ b.program.contains u = false := by
  rw [Session.exec_close] at done ⊢
  rw [h.session.draft, h.unit_eq, own]
  rw [own] at done
  obtain ⟨image, image', held, held', requires, rfl, more⟩ := h.program.image
  cases sealed : b.session.draft.close with
  | error e =>
    rw [sealed] at done
    cases done
  | ok result =>
    obtain ⟨registry', d⟩ := result
    rw [sealed] at done
    dsimp only at done ⊢
    rw [Program.closeUnit_eq _ held] at done
    rw [Program.closeUnit_eq _ held']
    by_cases complete : b.program.missing image = []
    · have lacks : ∀ u, u ∈ b'.program.missing { image with requires := requires } ↔
          u ∈ units ∧ b.program.contains u = false := by
        intro u
        rw [Program.mem_missing_iff, h.program.contains]
        refine and_congr_left fun unloaded => (more u).trans (or_iff_right fun required => ?_)
        have loaded := Program.missing_eq_nil_iff.1 complete u required
        exact Bool.false_ne_true (unloaded.symm.trans loaded)
      obtain ⟨u, listed, unloaded⟩ := lacking
      have some_lacks := List.ne_nil_of_mem ((lacks u).2 ⟨listed, unloaded⟩)
      rw [if_neg some_lacks]
      exact ⟨_, rfl, lacks⟩
    · rw [if_neg complete] at done
      cases done

end Bench.Burdened

/-! ## Workspaces -/

namespace Workspace

variable {unit name : String} {units : List String} {w w' : Workspace} {command : Command}

/-- **Two workspaces are the same, but for a burden.**  In the second one a unit may require some
more units, and more of its declarations may have stayed without effect, with more warnings. -/
structure Burdened (unit : String) (units : List String) (w w' : Workspace) : Prop where
  /-- The same is published. -/
  store : w'.store = w.store
  /-- The image of the unit requires the given units in addition, and is the same apart from that;
  the other images are the same. -/
  program : w.program.Burdened unit units w'.program
  /-- No warning is lost. -/
  warnings : w.warnings.Sublist w'.warnings
  /-- The session of the unit has the same draft and the same ledger. -/
  session : Option.Rel Session.Burdened (w.sessions.get? unit) (w'.sessions.get? unit)
  /-- The other sessions are the same. -/
  elsewhere : ∀ u, u ≠ unit → w'.sessions.get? u = w.sessions.get? u

namespace Burdened

/-- Two sessions of a unit, with a burden or the same. -/
theorem sessions (h : w.Burdened unit units w') (u : String) :
    (w.sessions.get? u = none ∧ w'.sessions.get? u = none) ∨
      ∃ s s', w.sessions.get? u = some s ∧ w'.sessions.get? u = some s' ∧ s.Burdened s' ∧
        (u ≠ unit → s' = s) := by
  by_cases same : u = unit
  · subst same
    have sessions := h.session
    generalize held : w.sessions.get? u = s at sessions
    generalize held' : w'.sessions.get? u = s' at sessions
    cases sessions with
    | none => exact .inl ⟨rfl, rfl⟩
    | some burdened => exact .inr ⟨_, _, rfl, rfl, burdened, fun other => absurd rfl other⟩
  · rw [h.elsewhere u same]
    cases w.sessions.get? u with
    | none => exact .inl ⟨rfl, rfl⟩
    | some s => exact .inr ⟨s, s, rfl, rfl, .refl s, fun _ => rfl⟩

/-- The benches of a session. -/
theorem benches (h : w.Burdened unit units w') {s s' : Session} (burdened : s.Burdened s')
    (foreign : s.draft.unit ≠ unit → s' = s) : (w.bench s).Burdened unit units (w'.bench s') :=
  ⟨burdened, foreign, h.program, h.warnings⟩

/-- What a session leaves behind that has worked. -/
theorem withBench (h : w.Burdened unit units w') {b b' : Bench}
    (burdened : b.Burdened unit units b') (named : b.unit = name) :
    (w.withBench name b).Burdened unit units (w'.withBench name b') where
  store := h.store
  program := burdened.program
  warnings := burdened.warnings
  session := by
    show Option.Rel _ ((w.sessions.insert name _).get? unit) ((w'.sessions.insert name _).get? unit)
    rw [get?_sessions_insert, get?_sessions_insert]
    split
    · exact .some burdened.session
    · exact h.session
  elsewhere u other := by
    show (w'.sessions.insert name _).get? u = (w.sessions.insert name _).get? u
    rw [get?_sessions_insert, get?_sessions_insert]
    split
    · next same =>
      rw [burdened.foreign fun own => other (same.symm.trans (named.symm.trans own))]
    · exact h.elsewhere u other

/-- **Working.** -/
theorem after_work (h : w.Burdened unit units w') (coherent : w'.Coherent) {m : Step Bench Reply}
    (isWork : command.work? w.store = some m) :
    w'.outcome command = w.outcome command ∧
      (w.after command).Burdened unit units (w'.after command) := by
  have isWork' : command.work? w'.store = some m := h.store ▸ isWork
  have performed := exec_perform_of_work isWork
  have performed' := exec_perform_of_work isWork'
  show (exec (perform command) w').1 = (exec (perform command) w).1 ∧
    Burdened unit units (exec (perform command) w).2 (exec (perform command) w').2
  rw [performed, performed']
  rcases h.sessions command.unit with ⟨none, none'⟩ | ⟨s, s', session, session', same, foreign⟩
  · rw [none, none']
    exact ⟨rfl, h⟩
  · have named' := (coherent.session session').1
    have named : s.draft.unit = command.unit := by rw [← same.draft, named']
    obtain ⟨outcome, burdened⟩ := Command.work?_matches (Bench.unseen_burdened unit units) isWork
      (h.benches same fun other => foreign (named ▸ other))
    rw [session, session']
    obtain ⟨events, runs, -⟩ := Command.work?_performs isWork' _ (coherent.loaded session')
    refine ⟨outcome, h.withBench burdened ?_⟩
    rw [← burdened.unit_eq, runs.unit_eq]
    exact named'

/-- What a new unit is loaded with. -/
theorem loading (h : w.Burdened unit units w') {d : Draft} (other : d.unit ≠ unit) :
    (w.toSite.loading d).program.Burdened unit units (w'.toSite.loading d).program :=
  h.program.setImage (by rw [if_neg other])

/-- A unit that is not loaded is not the one with the burden. -/
theorem ne_of_fresh (h : w.Burdened unit units w') {u : String}
    (fresh : w.program.contains u = false) : u ≠ unit := by
  rintro rfl
  obtain ⟨_, _, held, -⟩ := h.program.image
  exact Bool.false_ne_true (fresh.symm.trans (Table.contains_iff_exists_get?.2 ⟨_, held⟩))

/-- What is kept after a session has been opened. -/
theorem opened (h : w.Burdened unit units w') {site site' : Site} (s : Session) (u : String)
    (store : site'.store = site.store) (program : site.program.Burdened unit units site'.program)
    (warnings : site.warnings.Sublist site'.warnings) :
    Burdened unit units { w with toSite := site, sessions := w.sessions.insert u s }
      { w' with toSite := site', sessions := w'.sessions.insert u s } where
  store := store
  program := program
  warnings := warnings
  session := by
    show Option.Rel _ ((w.sessions.insert u s).get? unit) ((w'.sessions.insert u s).get? unit)
    rw [get?_sessions_insert, get?_sessions_insert]
    split
    · exact .some (.refl s)
    · exact h.session
  elsewhere v other := by
    show (w'.sessions.insert u s).get? v = (w.sessions.insert u s).get? v
    rw [get?_sessions_insert, get?_sessions_insert, h.elsewhere v other]

/-- **Opening a root.** -/
theorem after_openRoot (h : w.Burdened unit units w') (config : Config) (u : String)
    (fields : Value) :
    w'.outcome (.openRoot config u fields) = w.outcome (.openRoot config u fields) ∧
      (w.after (.openRoot config u fields)).Burdened unit units
        (w'.after (.openRoot config u fields)) := by
  show (exec (opening u (Site.openRoot config u fields)) w').1 =
      (exec (opening u (Site.openRoot config u fields)) w).1 ∧
    Burdened unit units (exec (opening u (Site.openRoot config u fields)) w).2
      (exec (opening u (Site.openRoot config u fields)) w').2
  rw [exec_opening, exec_opening, Site.exec_openRoot, Site.exec_openRoot]
  cases (mergeFields ∅ fields).mapError Error.fault with
  | error e => exact ⟨rfl, h⟩
  | ok merged =>
    dsimp only
    rw [h.program.contains]
    cases fresh : w.program.contains u with
    | true => exact ⟨rfl, h⟩
    | false =>
      have other : u ≠ unit := h.ne_of_fresh fresh
      exact ⟨rfl, h.opened _ u h.store (h.loading other) h.warnings⟩

/-- **Opening an extension.** -/
theorem after_openExtension (h : w.Burdened unit units w') (config : Config) (u base : String)
    (fields : Value) :
    w'.outcome (.openExtension config u base fields) =
        w.outcome (.openExtension config u base fields) ∧
      (w.after (.openExtension config u base fields)).Burdened unit units
        (w'.after (.openExtension config u base fields)) := by
  show (exec (opening u (Site.openExtension config u base fields)) w').1 =
      (exec (opening u (Site.openExtension config u base fields)) w).1 ∧
    Burdened unit units (exec (opening u (Site.openExtension config u base fields)) w).2
      (exec (opening u (Site.openExtension config u base fields)) w').2
  rw [exec_opening, exec_opening, Site.exec_openExtension, Site.exec_openExtension, h.store]
  cases w.store.get? base with
  | none => exact ⟨rfl, h⟩
  | some registry =>
    dsimp only
    cases resolved : resolve registry fields u config with
    | error e => exact ⟨rfl, h⟩
    | ok resolution =>
      dsimp only
      rw [h.program.contains]
      cases fresh : w.program.contains resolution.draft.unit with
      | true => exact ⟨rfl, h⟩
      | false =>
        have other := h.ne_of_fresh fresh
        have opening : (w.toSite.openingBench config resolution.draft).Burdened unit units
            (w'.toSite.openingBench config resolution.draft) :=
          ⟨.refl _, fun _ => rfl, h.loading other, h.warnings⟩
        obtain ⟨outcome, burdened⟩ := Session.materialize_matches
          (Bench.unseen_burdened unit units) w.store resolution.emissions opening
        rw [if_neg Bool.false_ne_true, if_neg Bool.false_ne_true]
        cases put : exec (Session.materialize w.store resolution.emissions)
            (w.toSite.openingBench config resolution.draft) with
        | mk result b =>
          cases put' : exec (Session.materialize w.store resolution.emissions)
              (w'.toSite.openingBench config resolution.draft) with
          | mk result' b' =>
            rw [put, put'] at outcome burdened
            obtain rfl : result' = result := outcome
            have named := (Site.alone_of_materialize put).unit
            have same := burdened.foreign (named ▸ other)
            cases result' with
            | error e =>
              exact ⟨rfl, rfl, burdened.program, burdened.warnings, h.session, h.elsewhere⟩
            | ok _ =>
              simp only [Except.map]
              rw [same]
              exact ⟨trivial, h.opened _ u rfl burdened.program burdened.warnings⟩

/-- **Finishing.** -/
theorem after_finish (h : w.Burdened unit units w') (coherent : w'.Coherent) (u : String)
    (covered : u = unit → ∀ v ∈ units, w.program.Covers unit v) :
    w'.outcome (.finish u) = w.outcome (.finish u) ∧
      (w.after (.finish u)).Burdened unit units (w'.after (.finish u)) := by
  show (exec (perform (.finish u)) w').1 = (exec (perform (.finish u)) w).1 ∧
    Burdened unit units (exec (perform (.finish u)) w).2 (exec (perform (.finish u)) w').2
  rcases h.sessions u with ⟨closed, closed'⟩ | ⟨s, s', session, session', same, foreign⟩
  · rw [exec_finish_of_missing closed, exec_finish_of_missing closed']
    exact ⟨rfl, h⟩
  · have named : s.draft.unit = u := by rw [← same.draft, (coherent.session session').1]
    have benches := h.benches same fun other => foreign (named ▸ other)
    obtain ⟨outcome, burdened⟩ := benches.close fun own => covered (named.symm.trans own)
    rw [exec_perform_finish session, exec_perform_finish session']
    cases done : exec Session.close (w.bench s) with
    | mk result b =>
      cases done' : exec Session.close (w'.bench s') with
      | mk result' b' =>
        rw [done, done'] at outcome burdened
        obtain rfl : result' = result := outcome
        have stays : (w.withBench u b).Burdened unit units (w'.withBench u b') :=
          h.withBench burdened (by
            have kept := Session.unit_close (w.bench s)
            rw [done] at kept
            exact kept.trans named)
        cases result' with
        | error e => exact ⟨rfl, stays⟩
        | ok registry =>
          dsimp only
          rw [exec_publish, exec_publish, stays.store]
          split
          · exact ⟨rfl, stays⟩
          · exact ⟨rfl, rfl, stays.program, stays.warnings, stays.session, stays.elsewhere⟩

/-- **One command** has the same outcome with and without the burden, unless it finishes the unit
while an additional requirement is not covered. -/
theorem after (h : w.Burdened unit units w') (coherent : w'.Coherent) (command : Command)
    (covered : command = .finish unit → ∀ u ∈ units, w.program.Covers unit u) :
    w'.outcome command = w.outcome command ∧
      (w.after command).Burdened unit units (w'.after command) := by
  cases isWork : command.work? w.store with
  | some m => exact h.after_work coherent isWork
  | none =>
    cases command with
    | openRoot config u fields => exact h.after_openRoot config u fields
    | openExtension config u base fields => exact h.after_openExtension config u base fields
    | finish u => exact h.after_finish coherent u fun own => covered (own ▸ rfl)
    | define | grant | withhold | importRoutines | setHooks | run => cases isWork

/-- **Any commands** have the same outcomes. -/
theorem afterAll (h : w.Burdened unit units w') (coherent : w'.Coherent) {commands : List Command}
    (covered : ∀ past future, commands = past ++ .finish unit :: future →
      ∀ u ∈ units, (w.afterAll past).program.Covers unit u) :
    w'.outcomes commands = w.outcomes commands ∧
      (w.afterAll commands).Burdened unit units (w'.afterAll commands) := by
  induction commands generalizing w w' with
  | nil => exact ⟨rfl, h⟩
  | cons command commands ih =>
    obtain ⟨outcome, burdened⟩ := h.after coherent command fun finishes =>
      covered [] commands (by rw [finishes]; rfl)
    obtain ⟨outcomes, left⟩ := ih burdened (coherent.after command) fun past future same =>
      covered (command :: past) future (by rw [same]; rfl)
    exact ⟨by rw [Workspace.outcomes, Workspace.outcomes, outcome, outcomes], left⟩

/-- **Where the burden counts.**  A unit that would be published is refused for the additional
requirements that are not loaded. -/
theorem finish_refused (h : w.Burdened unit units w') (coherent : w'.Coherent) {reply : Reply}
    (done : w.outcome (.finish unit) = .ok reply)
    (lacking : ∃ u ∈ units, w.program.contains u = false) :
    ∃ missing, w'.outcome (.finish unit) = .error (.requirementsNotLoaded unit missing) ∧
      ∀ u, u ∈ missing ↔ u ∈ units ∧ w.program.contains u = false := by
  replace done : (exec (perform (.finish unit)) w).1 = .ok reply := done
  rcases h.sessions unit with ⟨closed, -⟩ | ⟨s, s', session, session', same, foreign⟩
  · rw [exec_finish_of_missing closed] at done
    cases done
  · have named : s.draft.unit = unit := by rw [← same.draft, (coherent.session session').1]
    have benches := h.benches same fun other => absurd named other
    rw [exec_perform_finish session] at done
    cases closing : exec Session.close (w.bench s) with
    | mk result b =>
      rw [closing] at done
      cases result with
      | error e => cases done
      | ok registry =>
        obtain ⟨missing, refused, lacks⟩ :=
          benches.close_refused named (congrArg Prod.fst closing) lacking
        refine ⟨missing, ?_, lacks⟩
        show (exec (perform (.finish unit)) w').1 = _
        rw [exec_perform_finish session']
        cases closing' : exec Session.close (w'.bench s') with
        | mk result' b' =>
          rw [closing'] at refused
          obtain rfl := refused
          rfl

end Burdened

end Workspace

end Heredity
