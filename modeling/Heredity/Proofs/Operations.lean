import Mathlib.Data.List.Sort
import Mathlib.Data.String.Basic
import Heredity.Proofs.Events
import Heredity.Proofs.Failures
import Heredity.Proofs.Inheritance
import Heredity.Proofs.Parameters

/-!
# Operations are traces

Every operation of a session, whether it succeeds or fails half-way, leaves behind what a trace of
events leaves behind, and touches the image of no other unit.

* `Bench.Shows` — a bench shows the unit that its session writes.
* `Bench.Runs` — what lies between two benches is a trace, and other images are untouched.
* `define_runs`, `run_performs`, `importRoutines_performs`, … — one theorem for each operation, with
  the events that it stands for.

A declaration is treated variant by variant, and a failure at one of them stops it.  So its events
are the declarations of a beginning of its variants, and of all of them if it succeeds
(`declarations`).
-/

namespace Heredity

open Step (exec)

/-! ## Benches and writings -/

/-- The bench shows the unit that its session writes, with the image that the program holds. -/
def Bench.Shows (b : Bench) (w : Writing) : Prop :=
  b.session = w.session ∧ b.program.units.get? b.unit = some w.image

/-- The unit of a bench has been opened in its program. -/
def Bench.Loaded (b : Bench) : Prop := ∃ image, b.program.units.get? b.unit = some image

/-- From one bench to another by events of the session, while the images of other units stay. -/
def Bench.Runs (b : Bench) (events : List Event) (b' : Bench) : Prop :=
  ∃ w w', b.Shows w ∧ b'.Shows w' ∧ Trace w events w' ∧
    ∀ unit, unit ≠ b.unit → b'.program.units.get? unit = b.program.units.get? unit

namespace Bench

@[simp] theorem program_withDraft (b : Bench) (d : Draft) :
    (b.withDraft d).program = b.program := rfl

variable {b b' b'' : Bench} {w w' : Writing} {events events' : List Event}

theorem Shows.loaded (h : b.Shows w) : b.Loaded := ⟨_, h.2⟩

theorem Loaded.shows (h : b.Loaded) : ∃ image, b.Shows ⟨b.session, image⟩ := by
  obtain ⟨image, himage⟩ := h
  exact ⟨image, rfl, himage⟩

/-- A bench shows one writing only. -/
theorem Shows.unique (h : b.Shows w) (h' : b.Shows w') : w = w' := by
  obtain ⟨session, image⟩ := w
  obtain ⟨session', image'⟩ := w'
  obtain ⟨rfl, himage⟩ := h
  obtain ⟨rfl, himage'⟩ := h'
  rw [himage] at himage'
  cases himage'
  rfl

theorem Runs.loaded (h : b.Runs events b') : b'.Loaded := by
  obtain ⟨_, _, _, shows', -⟩ := h
  exact shows'.loaded

theorem Runs.unit_eq (h : b.Runs events b') : b'.unit = b.unit := by
  obtain ⟨w, w', ⟨hs, -⟩, ⟨hs', -⟩, trace, -⟩ := h
  rw [unit, unit, hs, hs']
  exact trace.unit_eq

theorem Runs.refl (h : b.Loaded) : b.Runs [] b := by
  obtain ⟨image, shows'⟩ := h.shows
  exact ⟨_, _, shows', shows', .nil _, fun _ _ => rfl⟩

theorem Runs.trans (h : b.Runs events b') (h' : b'.Runs events' b'') :
    b.Runs (events ++ events') b'' := by
  have unit := h.unit_eq
  obtain ⟨w, w₁, shows', shows₁, trace, elsewhere⟩ := h
  obtain ⟨w₂, w', shows₂, shows'', trace', elsewhere'⟩ := h'
  obtain rfl := shows₁.unique shows₂
  refine ⟨w, w', shows', shows'', trace.append trace', fun u hu => ?_⟩
  rw [elsewhere' u (unit ▸ hu), elsewhere u hu]

/-- An event that leaves the image alone. -/
theorem runs_of_session {event : Event} (shows' : b.Shows w) (move : Moves w event w')
    (session : b'.session = w'.session) (image : w'.image = w.image)
    (program : b'.program = b.program) : b.Runs [event] b' := by
  have unit : b'.unit = b.unit := by
    rw [Bench.unit, Bench.unit, session, shows'.1]
    exact move.unit_eq
  refine ⟨w, w', shows', ⟨session, ?_⟩, .single move, fun _ _ => by rw [program]⟩
  rw [unit, program, image]
  exact shows'.2

end Bench

/-- Another image in the place of the image of a unit is what the program holds of it. -/
@[simp] theorem Program.get?_setImage (p : Program) (unit : String) (image : Image)
    (other : String) :
    (p.setImage unit image).units.get? other =
      if unit = other then some image else p.units.get? other := by
  rw [setImage, Table.get?_insert]
  simp

theorem Program.image_eq_ok {p : Program} {unit : String} {image : Image}
    (h : p.units.get? unit = some image) : p.image unit = .ok image := by
  rw [Program.image, h]

/-- An image is completed, with what its registry withholds, if the unit lacks no other. -/
theorem Program.closeUnit_eq {p : Program} {unit : String} {image : Image} (registry : Registry)
    (h : p.units.get? unit = some image) :
    p.closeUnit unit registry =
      if p.missing image = [] then
        .ok (p.setImage unit { image with withheld := registry.withheld, closed := true })
      else .error (.requirementsNotLoaded unit (p.missing image)) := by
  rw [closeUnit, image_eq_ok h]
  simp only [bind, Except.bind, List.isEmpty_iff]
  split <;> rfl

/-- An image is completed unless the unit lacks another. -/
theorem Program.closeUnit_cases {p : Program} {unit : String} {image : Image} (registry : Registry)
    (h : p.units.get? unit = some image) :
    (p.missing image ≠ [] ∧ p.closeUnit unit registry =
        .error (.requirementsNotLoaded unit (p.missing image))) ∨
      p.closeUnit unit registry =
        .ok (p.setImage unit { image with withheld := registry.withheld, closed := true }) := by
  rw [closeUnit_eq registry h]
  by_cases complete : p.missing image = []
  · exact .inr (if_pos complete)
  · exact .inl ⟨complete, if_neg complete⟩

/-- The names of a set are listed in order. -/
theorem NameSet.pairwise_sorted (names : NameSet) : names.sorted.Pairwise (· < ·) := by
  have distinct : names.sorted.Nodup :=
    (List.mergeSort_perm _ _).nodup_iff.2 (OrderedSet.nodup_toList names)
  have ordered : names.sorted.Pairwise (· ≤ ·) := List.pairwise_mergeSort' (· ≤ ·) names.toList
  exact (ordered.and distinct).imp fun ⟨le, ne⟩ => lt_of_le_of_ne le ne

theorem Program.mem_missing_iff {p : Program} {image : Image} {unit : String} :
    unit ∈ p.missing image ↔ image.requires.contains unit = true ∧ p.contains unit = false := by
  rw [missing, List.mem_filter, NameSet.sorted, List.mem_mergeSort, OrderedSet.mem_toList,
    Bool.not_eq_true']

/-- A unit lacks no other exactly if all that its image requires have been opened. -/
theorem Program.missing_eq_nil_iff {p : Program} {image : Image} :
    p.missing image = [] ↔
      ∀ other, image.requires.contains other = true → p.contains other = true := by
  simp only [List.eq_nil_iff_forall_not_mem, mem_missing_iff, not_and, Bool.not_eq_false]

/-- An event that writes the image. -/
theorem Bench.runs_of_image {b b' : Bench} {w w' : Writing} {event : Event} (shows' : b.Shows w)
    (move : Moves w event w') (session : b'.session = w'.session)
    (program : b'.program = b.program.setImage b.unit w'.image) : b.Runs [event] b' := by
  have unit : b'.unit = b.unit := by
    rw [Bench.unit, Bench.unit, session, shows'.1]
    exact move.unit_eq
  refine ⟨w, w', shows', ⟨session, ?_⟩, .single move, fun u hu => ?_⟩
  · rw [unit, program, Program.get?_setImage, if_pos rfl]
  · rw [program, Program.get?_setImage, if_neg (Ne.symm hu)]

/-! ## Declarations -/

/-- The ledger decides between four treatments. -/
theorem Ledger.assess_cases {l : Ledger} {d : Draft} {key : Key} {spliced : Bool}
    {admission : Admission} {warning : Option Warning}
    (h : l.assess d key spliced = .ok (admission, warning)) :
    (d.withheld.contains key = true ∧ admission = .isLocal) ∨
      (d.withheld.contains key = false ∧ l.Admits d key admission) ∨
      (d.withheld.contains key = false ∧ admission = .inert ∧
        ∃ r, d.routines.get? key = some r ∧ r.inherited = true ∧ l.mayReplace key r = false) := by
  unfold assess at h
  split at h
  · next withheld =>
    cases h
    exact .inl ⟨withheld, rfl⟩
  · next passedOn =>
    rw [Bool.not_eq_true] at passedOn
    split at h
    · next free =>
      cases h
      exact .inr (.inl ⟨passedOn, .inl ⟨rfl, free⟩⟩)
    · next r recorded =>
      split at h
      · next open' =>
        cases h
        rw [Bool.or_eq_true, Bool.not_eq_true'] at open'
        exact .inr (.inl ⟨passedOn, .inr ⟨rfl, r, recorded, open'⟩⟩)
      · next locked =>
        rw [Bool.or_eq_true, not_or, Bool.not_eq_true', Bool.not_eq_false, Bool.not_eq_true]
          at locked
        refine .inr (.inr ⟨passedOn, ?_, r, recorded, locked.1, locked.2⟩)
        unfold refuseInert at h
        split at h
        · cases h; rfl
        · split at h <;> cases h
          rfl

theorem Ledger.Admits.isRecorded {l : Ledger} {d : Draft} {key : Key} {admission : Admission}
    (h : l.Admits d key admission) : admission.isRecorded = true := by
  rcases h with ⟨rfl, -⟩ | ⟨rfl, -⟩ <;> rfl

theorem Draft.ensureOpen_of_open {d : Draft} (h : d.closed = false) : d.ensureOpen = .ok d := by
  rw [ensureOpen, h]
  rfl

theorem Draft.ensureOpen_of_closed {d : Draft} (h : d.closed = true) :
    d.ensureOpen = .error (.registryClosed d.unit) := by
  rw [ensureOpen, h]
  rfl

/-- Closing asks whether the draft is open and whether it records what it withholds. -/
theorem Draft.close_eq (d : Draft) :
    d.close =
      if d.closed then .error (.registryClosed d.unit)
      else if d.recordsWithheld then .error .withheldRecorded
      else .ok (d.toRegistry, { d with closed := true }) := by
  unfold Draft.close
  by_cases closed : d.closed = true
  · rw [Draft.ensureOpen_of_closed closed, if_pos closed]
    rfl
  · rw [if_neg closed, Draft.ensureOpen_of_open (Bool.not_eq_true _ ▸ closed)]
    simp only [bind, Except.bind]
    split <;> rfl

/-- Closing a draft needs an open draft in which no record is withheld. -/
theorem Draft.close_eq_ok {d d' : Draft} {registry : Registry}
    (h : d.close = .ok (registry, d')) :
    d.closed = false ∧ d.recordsWithheld = false ∧ registry = d.toRegistry ∧
      d' = { d with closed := true } := by
  rw [Draft.close_eq] at h
  split at h
  · cases h
  · next writable =>
    split at h
    · cases h
    · next apart =>
      cases h
      exact ⟨Bool.eq_false_iff.2 writable, Bool.eq_false_iff.2 apart, rfl, rfl⟩

/-- An admitted declaration that is not to be recorded leaves the draft alone. -/
theorem Ledger.declare_of_unrecorded {l : Ledger} {d : Draft} {e : Emission} {spliced : Bool}
    {admission : Admission} {warning : Option Warning}
    (assessed : l.assess d e.key spliced = .ok (admission, warning))
    (unrecorded : admission.isRecorded = false) :
    l.declare d e.key e.params e.guards e.body spliced = .ok (admission, warning, d) := by
  simp only [declare, assessed, bind, Except.bind, unrecorded]
  rfl

/-- An admitted declaration that is to be recorded needs an open draft. -/
theorem Ledger.declare_of_recorded {l : Ledger} {d : Draft} {e : Emission} {spliced : Bool}
    {admission : Admission} {warning : Option Warning}
    (assessed : l.assess d e.key spliced = .ok (admission, warning))
    (recorded : admission.isRecorded = true) :
    l.declare d e.key e.params e.guards e.body spliced =
      if d.closed then .error (.registryClosed d.unit)
      else .ok (admission, warning, { d with routines := d.routines.insert e.key e.record }) := by
  simp only [declare, assessed, bind, Except.bind, recorded, Draft.record]
  by_cases closed : d.closed = true
  · rw [Draft.ensureOpen_of_closed closed, if_pos closed]
    rfl
  · rw [Draft.ensureOpen_of_open (Bool.not_eq_true _ ▸ closed), if_neg closed]
    rfl

namespace Session

/-- The events of the first variants of a declaration, one for each admission. -/
def declarations (declaration : Declaration) (units : NameSet) (variants : List Tree.Variant)
    (admissions : List Admission) : List Event :=
  List.zipWith (fun v a => .declare (variantEmission declaration v) units a) variants admissions

theorem variantEmission_made (declaration : Declaration) {v : Tree.Variant} (h : v.Proper) :
    (variantEmission declaration v).Made :=
  ⟨rfl, by simp [variantEmission, Key.ofCount, h.arity], h.body, h.guards⟩

/-- Only expressions can be prepared. -/
theorem isExpression_of_prepare {store : Store} {d : Draft} {name : String} {expr : Tree}
    {prepared : Tree × NameSet} (h : prepare store d name expr = .ok prepared) :
    prepared.1.isExpression = true := by
  unfold prepare at h
  cases checked : checkSuperCalls store d name expr with
  | error error =>
    rw [checked] at h
    cases h
  | ok _ =>
    rw [checked] at h
    cases bound : expr.bindBase name d.base with
    | error error =>
      simp only [bound, bind, Except.bind] at h
      cases h
    | ok t =>
      simp only [bound, bind, Except.bind] at h
      exact Tree.isExpression_of_qualify h

theorem isExpression_of_prepareAll {store : Store} {d : Draft} {declaration : Declaration}
    {body : Tree} {guards : List Tree} {units : NameSet}
    (h : prepareAll store d declaration = .ok (body, guards, units)) :
    body.isExpression = true ∧ ∀ guard ∈ guards, guard.isExpression = true := by
  unfold prepareAll at h
  cases preparing : prepare store d declaration.name declaration.body with
  | error error =>
    rw [preparing] at h
    cases h
  | ok prepared =>
    rw [preparing] at h
    cases each : declaration.guards.mapM (prepare store d declaration.name) with
    | error error =>
      simp only [each, bind, Except.bind] at h
      cases h
    | ok prepared' =>
      simp only [each, bind, Except.bind] at h
      cases h
      refine ⟨isExpression_of_prepare preparing, fun guard member => ?_⟩
      obtain ⟨g, isPrepared, rfl⟩ := List.mem_map.1 member
      obtain ⟨written, -, done⟩ := exists_left_of_forall₂ (forall₂_of_mapM_eq_ok each) isPrepared
      exact isExpression_of_prepare done

/-- Delivering a routine that is not inert puts it into the image. -/
theorem exec_deliver {b : Bench} {image : Image} (e : Emission) {admission : Admission}
    (held : b.program.units.get? b.unit = some image) (h : admission ≠ .inert) :
    exec (deliver e admission) b =
      (.ok ⟨⟩, { b with
        program := b.program.setImage b.unit
          { image with routines := image.routines.insert e.key e } }) := by
  have put : b.program.emit b.unit e = .ok (b.program.setImage b.unit
      { image with routines := image.routines.insert e.key e }) := by
    rw [Program.emit, Program.image_eq_ok held]
    rfl
  cases admission with
  | inert => exact absurd rfl h
  | record | replace | isLocal =>
    show exec (Bench.updateProgram (·.emit b.unit e)) b = _
    rw [Bench.exec_updateProgram, put]

/-- What is declared and delivered is in the image. -/
theorem exec_declared {m : Step Bench Admission} {b b' : Bench} {image : Image} {e : Emission}
    {admission : Admission} (declared : exec m b = (.ok admission, b'))
    (held : b'.program.units.get? b'.unit = some image) (h : admission ≠ .inert) :
    exec (do let a ← m; deliver e a; return a) b =
      (.ok admission, { b' with
        program := b'.program.setImage b'.unit
          { image with routines := image.routines.insert e.key e } }) := by
  rw [Step.exec_bind_of_ok declared, Step.exec_bind_of_ok (exec_deliver e held h)]
  rfl

/-- A private declaration is refused at a recorded key and in a closed draft. -/
theorem exec_declarePrivate_cases (e : Emission) (b : Bench) :
    (∃ error, exec (declarePrivate e) b = (.error error, b) ∧ error.isUnresolved = false) ∨
      (b.session.draft.routines.contains e.key = false ∧ b.session.draft.closed = false ∧
        exec (declarePrivate e) b =
          (.ok .isLocal, b.withDraft { b.session.draft with
            privateKeys := b.session.draft.privateKeys.add e.key })) := by
  unfold declarePrivate
  rw [Step.exec_get_bind]
  split
  · exact .inl ⟨_, rfl, rfl⟩
  · next unrecorded =>
    rw [Step.exec_bind, Bench.exec_updateDraft, Draft.addPrivate]
    by_cases closed : b.session.draft.closed = true
    · rw [Draft.ensureOpen_of_closed closed]
      exact .inl ⟨_, rfl, rfl⟩
    · rw [Bool.not_eq_true] at closed unrecorded
      rw [Draft.ensureOpen_of_open closed]
      exact .inr ⟨unrecorded, closed, rfl⟩

/-- A public declaration is refused at a private key, by the ledger, and in a closed draft if it
would be recorded. -/
theorem exec_declarePublic_cases (e : Emission) (units : NameSet) (spliced : Bool) (b : Bench) :
    (∃ error, exec (declarePublic e units spliced) b = (.error error, b) ∧
        error.isUnresolved = false) ∨
      ∃ admission warning, b.session.draft.privateKeys.contains e.key = false ∧
        b.session.ledger.assess b.session.draft e.key spliced = .ok (admission, warning) ∧
        ((admission.isRecorded = false ∧ exec (declarePublic e units spliced) b =
            (.ok admission, { b with warnings := b.warnings ++ warning.toList })) ∨
          (admission.isRecorded = true ∧ b.session.draft.closed = false ∧
            exec (declarePublic e units spliced) b =
              (.ok admission, { b.withDraft (b.session.draft.recorded e units) with
                warnings := b.warnings ++ warning.toList }))) := by
  unfold declarePublic
  rw [Step.exec_get_bind]
  split
  · exact .inl ⟨_, rfl, rfl⟩
  · next notPrivate =>
    rw [Bool.not_eq_true] at notPrivate
    cases assessed : b.session.ledger.assess b.session.draft e.key spliced with
    | error error =>
      refine .inl ⟨error, ?_, Ledger.served_assess _ _ _ _ error assessed⟩
      rw [Ledger.declare, assessed]
      rfl
    | ok treatment =>
      obtain ⟨admission, warning⟩ := treatment
      cases recorded : admission.isRecorded with
      | false =>
        refine .inr ⟨admission, warning, notPrivate, rfl, .inl ⟨recorded, ?_⟩⟩
        rw [Ledger.declare_of_unrecorded assessed recorded, Step.exec_lift_ok_bind,
          Step.exec_set_bind, Step.exec_bind_of_ok (Bench.exec_warn _ _), recorded]
        rfl
      | true =>
        rw [Ledger.declare_of_recorded assessed recorded]
        by_cases closed : b.session.draft.closed = true
        · rw [if_pos closed]
          exact .inl ⟨_, rfl, rfl⟩
        · rw [if_neg closed, Step.exec_lift_ok_bind, Step.exec_set_bind,
            Step.exec_bind_of_ok (Bench.exec_warn _ _), recorded, if_pos rfl, Step.exec_bind,
            Bench.exec_updateDraft, Draft.addDependencies]
          rw [Bool.not_eq_true] at closed
          refine .inr ⟨admission, warning, notPrivate, rfl, .inr ⟨recorded, closed, ?_⟩⟩
          rw [Draft.ensureOpen_of_open (by exact closed)]
          rfl

/-- **One variant.**  Either nothing happens, or the variant is declared. -/
theorem declareVariant_runs {b : Bench} (loaded : b.Loaded) (declaration : Declaration)
    (units : NameSet) (spliced : Bool) {v : Tree.Variant} (proper : v.Proper) :
    (∃ error, exec (declareVariant declaration units spliced v) b = (.error error, b) ∧
        error.isUnresolved = false) ∨
      ∃ admission b', exec (declareVariant declaration units spliced v) b = (.ok admission, b') ∧
        b.Runs [.declare (variantEmission declaration v) units admission] b' := by
  obtain ⟨image, shows'⟩ := loaded.shows
  have made := variantEmission_made declaration proper
  unfold declareVariant
  dsimp only
  split
  · next isPrivate =>
    rcases exec_declarePrivate_cases (variantEmission declaration v) b with
      ⟨error, failed, served⟩ | ⟨unrecorded, writable, done⟩
    · exact .inl ⟨error, Step.exec_bind_of_error failed _, served⟩
    · exact .inr ⟨_, _, exec_declared done shows'.2 (by decide),
        Bench.runs_of_image shows' (.declarePrivate made isPrivate writable unrecorded) rfl rfl⟩
  · next isPublic =>
    rw [Bool.not_eq_true] at isPublic
    rcases exec_declarePublic_cases (variantEmission declaration v) units spliced b with
      ⟨error, failed, served⟩ | ⟨admission, warning, notPrivate, assessed, treated⟩
    · exact .inl ⟨error, Step.exec_bind_of_error failed _, served⟩
    · right
      rcases Ledger.assess_cases assessed with
        ⟨withheld, rfl⟩ | ⟨passedOn, admitted⟩ | ⟨passedOn, rfl, r, recorded, inherited, locked⟩
      -- Withheld: the program receives the routine, the draft does not.
      · obtain ⟨-, done⟩ := treated.resolve_right fun h => Bool.false_ne_true h.1
        exact ⟨_, _, exec_declared done shows'.2 (by decide),
          Bench.runs_of_image shows' (.declareLocal made isPublic notPrivate withheld) rfl rfl⟩
      · have isRecorded := admitted.isRecorded
        obtain ⟨-, writable, done⟩ :=
          treated.resolve_left fun h => Bool.false_ne_true (h.1.symm.trans isRecorded)
        have delivered : admission ≠ .inert := by
          rintro rfl
          cases isRecorded
        exact ⟨_, _, exec_declared done shows'.2 delivered,
          Bench.runs_of_image shows'
            (.declareRecorded made isPublic writable notPrivate passedOn admitted) rfl rfl⟩
      · obtain ⟨-, done⟩ := treated.resolve_right fun h => Bool.false_ne_true h.1
        exact ⟨_, _, Step.exec_bind_of_ok done _,
          Bench.runs_of_session shows'
            (.declareInert made isPublic notPrivate passedOn recorded inherited locked) rfl rfl rfl⟩

/-- **All variants.**  The variants are declared in order, up to the first that is refused. -/
theorem declareVariants_runs {b : Bench} (loaded : b.Loaded) (declaration : Declaration)
    (units : NameSet) (spliced : Bool) (variants : List Tree.Variant)
    (proper : ∀ v ∈ variants, v.Proper) :
    ∃ admissions b', b.Runs (declarations declaration units variants admissions) b' ∧
      ((exec (variants.mapM (declareVariant declaration units spliced)) b = (.ok admissions, b') ∧
          admissions.length = variants.length) ∨
        (∃ error, exec (variants.mapM (declareVariant declaration units spliced)) b =
            (.error error, b') ∧ admissions.length < variants.length ∧
            error.isUnresolved = false)) := by
  induction variants generalizing b with
  | nil => exact ⟨[], b, .refl loaded, .inl ⟨rfl, rfl⟩⟩
  | cons v variants ih =>
    simp only [List.mapM_cons]
    rcases declareVariant_runs loaded declaration units spliced (proper v List.mem_cons_self) with
      ⟨error, failed, served⟩ | ⟨admission, b₁, done, runs⟩
    · exact ⟨[], b, .refl loaded, .inr ⟨error, Step.exec_bind_of_error failed _, by simp, served⟩⟩
    · obtain ⟨admissions, b', runs', rest⟩ :=
        ih runs.loaded fun v variant => proper v (List.mem_cons_of_mem _ variant)
      refine ⟨admission :: admissions, b', runs.trans runs', ?_⟩
      rw [Step.exec_bind_of_ok done]
      rcases rest with ⟨done', length⟩ | ⟨error, failed, length, served⟩
      · refine .inl ⟨?_, by simp [length]⟩
        rw [Step.exec_bind_of_ok done']
        rfl
      · exact .inr ⟨error, Step.exec_bind_of_error failed _, by simpa using length, served⟩

/-- The requirement of a declaration, if it calls any units. -/
def requirement (units : NameSet) : List Event :=
  if units.isEmpty then [] else [.require units.toList]

/-- Requirements of a loaded unit are always noted. -/
theorem exec_require {b : Bench} (loaded : b.Loaded) (units : List String) :
    ∃ b', exec (Bench.updateProgram (·.require b.unit units)) b = (.ok ⟨⟩, b') ∧
      b.Runs [.require units] b' := by
  obtain ⟨image, shows'⟩ := loaded.shows
  have required : b.program.require b.unit units = .ok (b.program.setImage b.unit
      { image with requires := image.requires.addAll (units.filter (· != b.unit)) }) := by
    rw [Program.require, Program.image_eq_ok shows'.2]
    rfl
  refine ⟨{ b with program := b.program.setImage b.unit _ }, ?_,
    Bench.runs_of_image shows' .require rfl rfl⟩
  rw [Bench.exec_updateProgram, required]
  rfl

/-- **Declarations.**  What cannot be prepared is refused at once.  Otherwise the variants are
declared in order, and if none is refused the image requires the units that they call. -/
theorem define_runs {b : Bench} (loaded : b.Loaded) (store : Store) (declaration : Declaration)
    (spliced : Bool) :
    (∃ error, prepareAll store b.session.draft declaration = .error error ∧
        exec (define store declaration spliced) b = (.error error, b)) ∨
      ∃ body guards units admissions variants b',
        prepareAll store b.session.draft declaration = .ok (body, guards, units) ∧
        variants = Tree.expandDefaults declaration.name declaration.params guards body
          b.session.config.stem ∧
        ((exec (define store declaration spliced) b = (.ok admissions, b') ∧
            admissions.length = variants.length ∧
            b.Runs (declarations declaration units variants admissions ++ requirement units) b') ∨
          (∃ error, exec (define store declaration spliced) b = (.error error, b') ∧
            admissions.length < variants.length ∧ error.isUnresolved = false ∧
            b.Runs (declarations declaration units variants admissions) b')) := by
  unfold define
  rw [Step.exec_get_bind]
  cases prepared : prepareAll store b.session.draft declaration with
  | error error => exact .inl ⟨error, rfl, rfl⟩
  | ok result =>
    obtain ⟨body, guards, units⟩ := result
    right
    obtain ⟨isBody, areGuards⟩ := isExpression_of_prepareAll prepared
    obtain ⟨admissions, b₁, runs, outcome⟩ :=
      declareVariants_runs loaded declaration units spliced
        (Tree.expandDefaults declaration.name declaration.params guards body b.session.config.stem)
        fun _ member => Tree.proper_of_mem_expandDefaults isBody areGuards member
    rw [Step.exec_lift_ok_bind]
    dsimp only
    rcases outcome with ⟨done, length⟩ | ⟨error, failed, length, served⟩
    · obtain ⟨b', required, runs'⟩ := exec_require runs.loaded units.toList
      rw [Step.exec_bind_of_ok done]
      cases empty : units.isEmpty with
      | true =>
        refine ⟨body, guards, units, admissions, _, b₁, rfl, rfl, .inl ⟨rfl, length, ?_⟩⟩
        rw [requirement, if_pos empty, List.append_nil]
        exact runs
      | false =>
        -- The requirement is noted for the unit of the first bench, which is that of the last.
        refine ⟨body, guards, units, admissions, _, b', rfl, rfl, .inl ⟨?_, length, ?_⟩⟩
        · rw [runs.unit_eq] at required
          rw [Bool.not_false, if_pos rfl, Step.exec_bind_of_ok required]
          rfl
        · rw [requirement, if_neg (Bool.eq_false_iff.1 empty)]
          exact runs.trans runs'
    · exact ⟨body, guards, units, admissions, _, b₁, rfl, rfl,
        .inr ⟨error, Step.exec_bind_of_error failed _, length, served, runs⟩⟩

end Session

/-! ## Operations on the draft -/

/-- A step of a session leaves behind what events of one kind leave behind. -/
def Step.Performs {α : Type} (P : Event → Prop) (m : Step Bench α) : Prop :=
  ∀ b : Bench, b.Loaded → ∃ events, b.Runs events (exec m b).2 ∧ ∀ event ∈ events, P event

namespace Step.Performs

variable {α β : Type} {P Q : Event → Prop}

theorem mono {m : Step Bench α} (h : Performs P m) (sub : ∀ event, P event → Q event) :
    Performs Q m := by
  intro b loaded
  obtain ⟨events, runs, all⟩ := h b loaded
  exact ⟨events, runs, fun event member => sub event (all event member)⟩

theorem of_unchanged {m : Step Bench α} (h : ∀ b, (exec m b).2 = b) : Performs P m := by
  intro b loaded
  exact ⟨[], by rw [h b]; exact .refl loaded, by simp⟩

theorem bind {m : Step Bench α} {f : α → Step Bench β} (h : Performs P m)
    (h' : ∀ a, Performs P (f a)) : Performs P (m >>= f) := by
  intro b loaded
  obtain ⟨events, runs, all⟩ := h b loaded
  rw [exec_bind]
  cases outcome : exec m b with
  | mk result b₁ =>
    rw [outcome] at runs
    cases result with
    | error error => exact ⟨events, runs, all⟩
    | ok a =>
      obtain ⟨events', runs', all'⟩ := h' a b₁ runs.loaded
      refine ⟨events ++ events', runs.trans runs', fun event member => ?_⟩
      rcases List.mem_append.1 member with member | member
      · exact all event member
      · exact all' event member

theorem get_bind {f : Bench → Step Bench β} (h : ∀ b, Performs P (f b)) :
    Performs P (get >>= f) := fun b loaded => h b b loaded

theorem forM {f : α → Step Bench Unit} {xs : List α} (h : ∀ x ∈ xs, Performs P (f x)) :
    Performs P (xs.forM f) := by
  induction xs with
  | nil => exact of_unchanged fun _ => rfl
  | cons x xs ih =>
    exact (h x List.mem_cons_self).bind fun _ => ih fun y hy => h y (List.mem_cons_of_mem x hy)

end Step.Performs

namespace Bench

/-- An operation on the draft is one event, or it is refused and changes nothing. -/
theorem exec_updateDraft_runs {b : Bench} (loaded : b.Loaded) {f : Draft → Except Error Draft}
    {event : Event}
    (move : ∀ w : Writing, w.draft = b.session.draft → ∀ d, f w.draft = .ok d →
      Moves w event (w.withDraft d)) :
    (∃ error, exec (updateDraft f) b = (.error error, b)) ∨
      ∃ b', exec (updateDraft f) b = (.ok ⟨⟩, b') ∧ b.Runs [event] b' := by
  obtain ⟨image, shows'⟩ := loaded.shows
  rw [exec_updateDraft]
  cases updated : f b.session.draft with
  | error error => exact .inl ⟨error, rfl⟩
  | ok d =>
    exact .inr ⟨_, rfl, runs_of_session shows' (move ⟨b.session, image⟩ rfl d updated) rfl rfl rfl⟩

theorem performs_updateDraft {P : Event → Prop} {f : Draft → Except Error Draft} (event : Event)
    (holds : P event) (move : ∀ w : Writing, ∀ d, f w.draft = .ok d →
      Moves w event (w.withDraft d)) : Step.Performs P (updateDraft f) := by
  intro b loaded
  rcases exec_updateDraft_runs loaded fun w _ => move w with ⟨error, failed⟩ | ⟨b', done, runs⟩
  · exact ⟨[], by rw [failed]; exact .refl loaded, by simp⟩
  · exact ⟨[event], by rw [done]; exact runs, by simpa using holds⟩

end Bench

namespace Session

/-- What is written in an open draft. -/
theorem ensureOpen_bind_eq_ok {d d' : Draft} {f : Draft → Draft}
    (h : (d.ensureOpen >>= fun d => pure (f d)) = .ok d') : d.closed = false ∧ d' = f d := by
  by_cases closed : d.closed = true
  · rw [Draft.ensureOpen_of_closed closed] at h
    cases h
  · rw [Bool.not_eq_true] at closed
    rw [Draft.ensureOpen_of_open closed] at h
    cases h
    exact ⟨closed, rfl⟩

theorem moves_grant {key : Key} (w : Writing) (d : Draft) (h : Ledger.grant w.draft key = .ok d) :
    Moves w (.grant key) (w.withDraft d) := by
  unfold Ledger.grant at h
  split at h
  · cases h
  · next r recorded =>
    obtain ⟨writable, rfl⟩ := ensureOpen_bind_eq_ok h
    exact .grant writable recorded

theorem moves_withhold {key : Key} (w : Writing) (d : Draft)
    (h : Ledger.withhold w.draft key = .ok d) : Moves w (.withhold key) (w.withDraft d) := by
  unfold Ledger.withhold Draft.discard at h
  by_cases closed : w.draft.closed = true
  · rw [Draft.ensureOpen_of_closed closed] at h
    cases h
  · rw [Bool.not_eq_true] at closed
    rw [Draft.ensureOpen_of_open closed] at h
    obtain ⟨-, rfl⟩ := ensureOpen_bind_eq_ok
      (d := { w.draft with routines := w.draft.routines.erase key }) h
    exact .withhold closed

theorem moves_importKey {key : Key} {source : String} (w : Writing) (d : Draft)
    (h : w.draft.addImport key source = .ok d) :
    Moves w (.importKey key source) (w.withDraft d) := by
  obtain ⟨writable, rfl⟩ := ensureOpen_bind_eq_ok h
  exact .importKey writable

theorem moves_setHooks {pre post : Option Hook} (w : Writing) (d : Draft)
    (h : w.draft.setHooks pre post = .ok d) :
    Moves w (.setHooks pre post) (w.withDraft d) := by
  obtain ⟨writable, rfl⟩ := ensureOpen_bind_eq_ok h
  exact .setHooks writable

theorem grant_performs (key : Key) : Step.Performs (· = .grant key) (grant key) :=
  Bench.performs_updateDraft _ rfl moves_grant

theorem withhold_performs (key : Key) : Step.Performs (· = .withhold key) (withhold key) :=
  Bench.performs_updateDraft _ rfl moves_withhold

theorem setHooks_performs (pre post : Option Hook) :
    Step.Performs (· = .setHooks pre post) (setHooks pre post) :=
  Bench.performs_updateDraft _ rfl moves_setHooks

/-- Imports are noted one by one, up to the first key that the source does not pass on. -/
theorem importRoutines_performs (store : Store) (source : Value) (keys : Option (List Key)) :
    Step.Performs (fun event => ∃ key unit, event = .importKey key unit)
      (importRoutines store source keys) := by
  refine .get_bind fun b => ?_
  refine Step.Performs.bind (.of_unchanged fun _ => rfl) fun registry => .forM fun key _ => ?_
  unfold importRoutine
  split
  · exact Bench.performs_updateDraft _ ⟨key, registry.unit, rfl⟩ moves_importKey
  · exact .of_unchanged fun _ => rfl

theorem grantRecorded_performs (name : String) (arity : Nat) (admissions : List Admission) :
    Step.Performs (fun event => ∃ key, event = .grant key)
      (grantRecorded name arity admissions) := by
  induction admissions generalizing arity with
  | nil => exact .of_unchanged fun _ => rfl
  | cons admission admissions ih =>
    unfold grantRecorded
    split
    · exact ((grant_performs _).mono fun _ h => ⟨_, h⟩).bind fun _ => ih (arity + 1)
    · exact ih (arity + 1)

/-! ## Statements, hooks and inherited routines -/

/-- The events of a declaration are those of its variants. -/
theorem exists_of_mem_declarations {declaration : Declaration} {units : NameSet}
    {variants : List Tree.Variant} {admissions : List Admission} {event : Event}
    (h : event ∈ declarations declaration units variants admissions) :
    ∃ v ∈ variants, ∃ a, event = .declare (variantEmission declaration v) units a := by
  induction variants generalizing admissions with
  | nil => cases h
  | cons v variants ih =>
    cases admissions with
    | nil => cases h
    | cons a admissions =>
      rcases List.mem_cons.1 h with rfl | member
      · exact ⟨v, List.mem_cons_self, a, rfl⟩
      · obtain ⟨v', hv', rest⟩ := ih member
        exact ⟨v', List.mem_cons_of_mem _ hv', rest⟩

/-- Every variant that is treated has an event. -/
theorem exists_mem_declarations (declaration : Declaration) (units : NameSet)
    {variants : List Tree.Variant} {admissions : List Admission}
    (length : admissions.length = variants.length) {v : Tree.Variant} (h : v ∈ variants) :
    ∃ a, .declare (variantEmission declaration v) units a ∈
      declarations declaration units variants admissions := by
  induction variants generalizing admissions with
  | nil => cases h
  | cons v' variants ih =>
    cases admissions with
    | nil => cases length
    | cons a admissions =>
      rcases List.mem_cons.1 h with rfl | h
      · exact ⟨a, List.mem_cons_self⟩
      · obtain ⟨a', member⟩ := ih (Nat.succ.inj length) h
        exact ⟨a', List.mem_cons_of_mem _ member⟩

theorem eq_of_mem_requirement {units : NameSet} {event : Event} (h : event ∈ requirement units) :
    event = .require units.toList := by
  unfold requirement at h
  split at h
  · cases h
  · exact List.mem_singleton.1 h

theorem define_performs (store : Store) (declaration : Declaration) (spliced : Bool) :
    Step.Performs (fun event => event.isOwn = true) (define store declaration spliced) := by
  intro b loaded
  rcases define_runs loaded store declaration spliced with
    ⟨error, -, failed⟩ | ⟨body, guards, units, admissions, variants, b', -, -, outcome⟩
  · exact ⟨[], by rw [failed]; exact .refl loaded, by simp⟩
  · rcases outcome with ⟨done, -, runs⟩ | ⟨error, failed, -, -, runs⟩
    · refine ⟨_, by rw [done]; exact runs, fun event member => ?_⟩
      rcases List.mem_append.1 member with member | member
      · obtain ⟨v, -, a, rfl⟩ := exists_of_mem_declarations member
        rfl
      · obtain rfl := eq_of_mem_requirement member
        rfl
    · refine ⟨_, by rw [failed]; exact runs, fun event member => ?_⟩
      obtain ⟨v, -, a, rfl⟩ := exists_of_mem_declarations member
      rfl

theorem run_performs (store : Store) (spliced : Bool) (statement : Statement) :
    Step.Performs (fun event => event.isOwn = true) (run store spliced statement) := by
  cases statement with
  | define declaration =>
    refine (define_performs store declaration spliced).bind fun admissions => ?_
    split
    · exact (grantRecorded_performs _ _ admissions).mono fun event ⟨_, h⟩ => h ▸ rfl
    · exact .of_unchanged fun _ => rfl
  | grant key => exact (grant_performs key).mono fun _ h => h ▸ rfl
  | withhold key => exact (withhold_performs key).mono fun _ h => h ▸ rfl

/-- Hooks are executed as if the unit had declared their statements itself. -/
theorem splice_performs (store : Store) (hooks : List Hook) :
    Step.Performs (fun event => event.isOwn = true) (splice store hooks) :=
  .forM fun _ _ => .forM fun statement _ => run_performs store true statement

/-- An inherited routine is always put in place, or skipped. -/
theorem emitInherited_runs {b : Bench} (loaded : b.Loaded) (e : Emission) :
    ∃ b', exec (emitInherited e) b = (.ok ⟨⟩, b') ∧ b.Runs [.inherit e] b' := by
  obtain ⟨image, shows'⟩ := loaded.shows
  have put : exec (Bench.updateProgram (·.emit b.unit e)) b = _ :=
    exec_deliver e shows'.2 (by decide : Admission.record ≠ .inert)
  unfold emitInherited
  rw [Step.exec_get_bind]
  split
  · next params guards body permitted recorded =>
    exact ⟨b, rfl, Bench.runs_of_session shows' (.skip recorded rfl) rfl rfl rfl⟩
  · next free =>
    -- The match asks for a record that is native, so nothing else is skipped.
    refine ⟨_, put, Bench.runs_of_image shows' (.inherit ?_) rfl rfl⟩
    rintro ⟨params, guards, body, origin, permitted⟩ recorded rfl
    exact free params guards body permitted recorded

theorem emitAll_runs {b : Bench} (loaded : b.Loaded) (es : List Emission) :
    ∃ b', exec (es.forM emitInherited) b = (.ok ⟨⟩, b') ∧ b.Runs (es.map .inherit) b' := by
  induction es generalizing b with
  | nil => exact ⟨b, rfl, .refl loaded⟩
  | cons e es ih =>
    obtain ⟨b₁, done, runs⟩ := emitInherited_runs loaded e
    obtain ⟨b', done', runs'⟩ := ih runs.loaded
    refine ⟨b', ?_, runs.trans runs'⟩
    show exec (emitInherited e >>= fun _ => es.forM emitInherited) b = _
    rw [Step.exec_bind_of_ok done, done']

/-- **Putting in place what is inherited.**  If no hook fails, the events are those of the first
hooks, one for each inherited routine, the requirements, and those of the last hooks. -/
theorem materialize_performs {P : Event → Prop} {b : Bench} (loaded : b.Loaded) (store : Store)
    (emissions : EmissionList) (first : Step.Performs P (splice store emissions.preHooks))
    (last : Step.Performs P (splice store emissions.postHooks)) :
    ∃ pre post : List Event, (∀ event ∈ pre, P event) ∧ (∀ event ∈ post, P event) ∧
      ((∃ error b', exec (materialize store emissions) b = (.error error, b') ∧
          ∃ events, b.Runs events b') ∨
        ∃ b', exec (materialize store emissions) b = (.ok ⟨⟩, b') ∧
          b.Runs (pre ++ (emissions.routines.map .inherit ++
            (.require emissions.requires :: post))) b') := by
  unfold materialize
  obtain ⟨pre, runs₁, allowed⟩ := first b loaded
  cases spliced : exec (splice store emissions.preHooks) b with
  | mk result b₁ =>
    rw [spliced] at runs₁
    cases result with
    | error error =>
      refine ⟨pre, [], allowed, by simp, .inl ⟨error, b₁, Step.exec_bind_of_error spliced _, ?_⟩⟩
      exact ⟨pre, runs₁⟩
    | ok _ =>
      obtain ⟨b₂, done₂, runs₂⟩ := emitAll_runs runs₁.loaded emissions.routines
      obtain ⟨b₃, done₃, runs₃⟩ := exec_require runs₂.loaded emissions.requires
      -- What the last hooks leave behind is known before it is known whether they fail.
      obtain ⟨post, runs₄, allowed'⟩ := last b₃ runs₃.loaded
      rw [Step.exec_bind_of_ok spliced, Step.exec_bind_of_ok done₂, Step.exec_get_bind,
        Step.exec_bind_of_ok done₃]
      have runs := runs₁.trans (runs₂.trans (runs₃.trans runs₄))
      cases spliced' : exec (splice store emissions.postHooks) b₃ with
      | mk result' b₄ =>
        rw [spliced'] at runs
        refine ⟨pre, post, allowed, allowed', ?_⟩
        cases result' with
        | error error => exact .inl ⟨error, b₄, rfl, _, runs⟩
        | ok _ => exact .inr ⟨b₄, rfl, runs⟩

/-- What is put in place stays in the image of the unit, whether a hook fails or not. -/
theorem materialize_runs {b : Bench} (loaded : b.Loaded) (store : Store)
    (emissions : EmissionList) :
    ∃ events, b.Runs events (exec (materialize store emissions) b).2 := by
  obtain ⟨pre, post, -, -, ⟨error, b', failed, events, runs⟩ | ⟨b', done, runs⟩⟩ :=
    materialize_performs loaded store emissions (splice_performs _ _) (splice_performs _ _)
  · rw [failed]
    exact ⟨events, runs⟩
  · rw [done]
    exact ⟨_, runs⟩

/-- The steps of closing: the draft is closed, then the image is completed. -/
theorem exec_close (b : Bench) :
    exec close b =
      match b.session.draft.close with
      | .error e => (.error e, b)
      | .ok (registry, d) =>
        match b.program.closeUnit b.unit registry with
        | .error e => (.error e, b.withDraft d)
        | .ok p => (.ok registry, { b.withDraft d with program := p }) := by
  unfold close
  rw [Step.exec_get_bind]
  cases b.session.draft.close with
  | error e => rfl
  | ok result =>
    obtain ⟨registry, d⟩ := result
    rw [Step.exec_lift_ok_bind, Step.exec_set_bind, Step.exec_bind, Bench.exec_updateProgram]
    dsimp only [Bench.program_withDraft]
    cases b.program.closeUnit b.unit registry <;> rfl

/-- Closing succeeds in an open draft that records nothing withheld, if no required unit is missing.
-/
theorem exec_close_of_complete {b : Bench} {image : Image}
    (held : b.program.units.get? b.unit = some image) (writable : b.session.draft.closed = false)
    (apart : b.session.draft.recordsWithheld = false) (complete : b.program.missing image = []) :
    exec close b = (.ok b.session.draft.toRegistry,
      { b.withDraft { b.session.draft with closed := true } with
        program := b.program.setImage b.unit
          { image with withheld := b.session.draft.withheld, closed := true } }) := by
  have closes : b.session.draft.close =
      .ok (b.session.draft.toRegistry, { b.session.draft with closed := true }) := by
    rw [Draft.close_eq, writable, apart]
    rfl
  rw [exec_close, closes]
  dsimp only
  rw [Program.closeUnit_eq _ held, if_pos complete]

/-- **Closing.**  The draft is closed and then the image is completed, or one of the two is
refused; the registry is what the draft held. -/
theorem close_runs {b : Bench} (loaded : b.Loaded) :
    (∃ error, exec close b = (.error error, b) ∧ error.isUnresolved = false) ∨
      (∃ image b', b.program.units.get? b.unit = some image ∧ b.program.missing image ≠ [] ∧
          exec close b =
            (.error (.requirementsNotLoaded b.unit (b.program.missing image)), b') ∧
          b.Runs [.close] b') ∨
        ∃ registry b', exec close b = (.ok registry, b') ∧ b.Runs [.close, .complete] b' ∧
          b'.session.draft.closed = true ∧ b'.session.draft.toRegistry = registry := by
  obtain ⟨image, shows'⟩ := loaded.shows
  unfold close
  rw [Step.exec_get_bind]
  cases sealed : b.session.draft.close with
  | error error => exact .inl ⟨error, rfl, Draft.served_close _ error sealed⟩
  | ok result =>
    right
    obtain ⟨registry, d⟩ := result
    obtain ⟨writable, apart, rfl, rfl⟩ := Draft.close_eq_ok sealed
    -- The draft is closed already when the program may still refuse.
    have closed : b.Runs [.close] (b.withDraft { b.session.draft with closed := true }) :=
      Bench.runs_of_session shows' (.close writable apart) rfl rfl rfl
    have completing := Bench.exec_updateProgram
      (·.closeUnit b.unit b.session.draft.toRegistry)
      (b.withDraft { b.session.draft with closed := true })
    rw [Step.exec_lift_ok_bind, Step.exec_set_bind]
    rw [Bench.program_withDraft] at completing
    rcases Program.closeUnit_cases b.session.draft.toRegistry shows'.2 with
      ⟨lacking, refused⟩ | completed
    · rw [refused] at completing
      exact .inl ⟨image, _, shows'.2, lacking, Step.exec_bind_of_error completing _, closed⟩
    · rw [completed] at completing
      have shows₁ : (b.withDraft { b.session.draft with closed := true }).Shows
          ⟨(b.withDraft { b.session.draft with closed := true }).session, image⟩ := ⟨rfl, shows'.2⟩
      exact .inr ⟨_, _, Step.exec_bind_of_ok completing _,
        closed.trans (Bench.runs_of_image shows₁ (.complete rfl) rfl rfl), rfl, rfl⟩

end Session

end Heredity
