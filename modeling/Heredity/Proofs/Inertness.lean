import Mathlib
import Heredity.Proofs.Burdens

/-!
# What an inert declaration leaves behind

A declaration at a locked key is accepted in vain: it is listed, a warning is issued, and it is
never reached.  This file says what else it does.

* `Bench.InVain` — a declaration of which every arity is inert.
* `Session.burdened_of_define` — all that it writes.
* `EmissionList.Omits` — a hook of a base without its declaration in vain; `materialize_omits` —
  what is put in place in an extension then.
* `Workspace.Hampers` — the same workspace with an inert declaration and without it, in all that
  follows.
* `Reachable.inert_hampers` — every inert declaration, of the unit itself or from a hook.

**The requirements are not conditional.**  That a unit depends on what a declaration names is noted
in its draft only if the declaration is recorded.  But the program is told after all arities have
been treated, and whatever became of them.  So the one thing that an inert declaration can do is to
keep its unit from being published, for want of a unit that nothing calls.
-/

namespace Heredity

open Step (exec Matches)

/-! ## Declarations in vain -/

/-- The bench after declarations have stayed without effect, but for what they require. -/
def Bench.noting (b : Bench) (es : List Emission) (ws : List Warning) : Bench :=
  { b with
    session := { b.session with inert := b.session.inert ++ es }
    warnings := b.warnings ++ ws }

/-- **A declaration in vain.**  It can be prepared, and then all its variants are inert.  The units
are those that its body and its guards name when they have been prepared. -/
structure Bench.InVain (store : Store) (declaration : Declaration) (spliced : Bool)
    (units : NameSet) (b : Bench) : Prop where
  /-- It can be prepared. -/
  prepared : ∃ body guards,
    Session.prepareAll store b.session.draft declaration = .ok (body, guards, units)
  /-- It is admitted, and inert for every arity. -/
  inert : ∃ admissions, (exec (Session.define store declaration spliced) b).1 = .ok admissions ∧
    ∀ admission ∈ admissions, admission = .inert

/-- The units that an inert declaration of a unit names, but for the unit itself. -/
def NameSet.others (units : NameSet) (unit : String) : List String :=
  units.toList.filter (· != unit)

namespace Session

variable {b b' : Bench}

/-- A variant that is inert is listed, and nothing else happens but for a warning. -/
theorem noting_of_declareVariant {declaration : Declaration} {units : NameSet} {spliced : Bool}
    {v : Tree.Variant}
    (done : exec (declareVariant declaration units spliced v) b = (.ok .inert, b')) :
    ∃ ws, b' = b.noting [variantEmission declaration v] ws := by
  unfold declareVariant at done
  dsimp only at done
  split at done
  · rcases exec_declarePrivate_cases (variantEmission declaration v) b with
      ⟨e, failed, -⟩ | ⟨-, -, treated⟩
    · cases (Step.exec_bind_of_error failed _).symm.trans done
    · rw [Step.exec_bind_of_ok treated] at done
      obtain ⟨_, _, -, returned⟩ := Step.exists_of_exec_bind_eq_ok done
      cases returned
  · rcases exec_declarePublic_cases (variantEmission declaration v) units spliced b with
      ⟨e, failed, -⟩ | ⟨admission, warning, -, -, treated⟩
    · cases (Step.exec_bind_of_error failed _).symm.trans done
    · rcases treated with ⟨-, treated⟩ | ⟨recorded, -, treated⟩
      · rw [Step.exec_bind_of_ok treated] at done
        obtain ⟨_, _, delivered, returned⟩ := Step.exists_of_exec_bind_eq_ok done
        cases returned
        cases delivered
        exact ⟨warning.toList, rfl⟩
      · rw [Step.exec_bind_of_ok treated] at done
        obtain ⟨_, _, -, returned⟩ := Step.exists_of_exec_bind_eq_ok done
        cases returned
        cases recorded

theorem noting_of_mapM {declaration : Declaration} {units : NameSet} {spliced : Bool}
    {variants : List Tree.Variant} {admissions : List Admission}
    (done : exec (variants.mapM (declareVariant declaration units spliced)) b =
      (.ok admissions, b')) (inert : ∀ admission ∈ admissions, admission = .inert) :
    ∃ ws, b' = b.noting (variants.map (variantEmission declaration)) ws := by
  induction variants generalizing b admissions with
  | nil =>
    cases done
    exact ⟨[], by simp [Bench.noting]⟩
  | cons v variants ih =>
    rw [List.mapM_cons] at done
    obtain ⟨admission, b₁, first, done⟩ := Step.exists_of_exec_bind_eq_ok done
    obtain ⟨others, b₂, rest, returned⟩ := Step.exists_of_exec_bind_eq_ok done
    cases returned
    obtain ⟨rfl, others_inert⟩ := List.forall_mem_cons.1 inert
    obtain ⟨ws, rfl⟩ := noting_of_declareVariant first
    obtain ⟨ws', rfl⟩ := ih rest others_inert
    exact ⟨ws ++ ws', by simp [Bench.noting]⟩

/-- **An inert declaration** changes nothing, but that it is listed, that warnings are issued, and
that the image requires the units that it names. -/
theorem burdened_of_define {store : Store} {declaration : Declaration} {spliced : Bool}
    {body : Tree} {guards : List Tree} {units : NameSet} {admissions : List Admission}
    (loaded : b.Loaded)
    (prepared : prepareAll store b.session.draft declaration = .ok (body, guards, units))
    (done : exec (define store declaration spliced) b = (.ok admissions, b'))
    (inert : ∀ admission ∈ admissions, admission = .inert) :
    b.Burdened b.unit (units.others b.unit) b' := by
  obtain ⟨image, -, held⟩ := loaded.shows
  have noted : ∀ es ws p', (∀ u, u ≠ b.unit → p'.units.get? u = b.program.units.get? u) →
      (∃ image', p'.units.get? b.unit = some image' ∧
        image.Burdened (units.others b.unit) image') →
      b.Burdened b.unit (units.others b.unit) { b.noting es ws with program := p' } := by
    rintro es ws p' elsewhere ⟨image', held', burdened⟩
    exact ⟨⟨rfl, rfl, List.sublist_append_left _ _⟩, fun other => absurd rfl other,
      ⟨⟨image, image', held, held', burdened⟩, elsewhere⟩, List.sublist_append_left _ _⟩
  unfold define at done
  rw [Step.exec_get_bind, prepared, Step.exec_lift_ok_bind] at done
  obtain ⟨admissions', b₁, declared, done⟩ := Step.exists_of_exec_bind_eq_ok done
  split at done
  · obtain ⟨_, b₂, required, returned⟩ := Step.exists_of_exec_bind_eq_ok done
    cases returned
    obtain ⟨ws, rfl⟩ := noting_of_mapM declared inert
    have stored : b.program.require b.unit units.toList = .ok (b.program.setImage b.unit
        { image with requires := image.requires.addAll (units.others b.unit) }) := by
      rw [Program.require, Program.image_eq_ok held]
      rfl
    rw [Bench.exec_updateProgram] at required
    dsimp only [Bench.noting] at required
    rw [stored] at required
    cases required
    refine noted _ ws _ (fun u other => ?_) ⟨_, ?_, image.burdened_addAll _⟩
    · rw [Program.get?_setImage, if_neg (Ne.symm other)]
    · rw [Program.get?_setImage, if_pos rfl]
  · next none =>
    cases done
    obtain ⟨ws, rfl⟩ := noting_of_mapM declared inert
    have isEmpty : units = ∅ := by
      rw [Bool.not_eq_true', Bool.not_eq_false, Table.isEmpty, List.isEmpty_iff] at none
      exact Table.ext none
    subst isEmpty
    exact noted _ ws b.program (fun _ _ => rfl) ⟨image, held, image.burdened_nil⟩

/-- Nothing is granted where nothing was recorded. -/
theorem exec_grantRecorded_of_inert (name : String) (arity : Nat) {admissions : List Admission}
    (inert : ∀ admission ∈ admissions, admission = .inert) :
    exec (grantRecorded name arity admissions) b = (.ok ⟨⟩, b) := by
  induction admissions generalizing arity with
  | nil => rfl
  | cons admission admissions ih =>
    obtain ⟨rfl, rest⟩ := List.forall_mem_cons.1 inert
    exact ih (arity + 1) rest

end Session

namespace Bench.InVain

variable {store : Store} {declaration : Declaration} {spliced : Bool} {units : NameSet} {b : Bench}

theorem define (h : b.InVain store declaration spliced units) (loaded : b.Loaded) :
    ∃ admissions b', exec (Session.define store declaration spliced) b = (.ok admissions, b') ∧
      (∀ admission ∈ admissions, admission = .inert) ∧
      b.Burdened b.unit (units.others b.unit) b' := by
  obtain ⟨body, guards, prepared⟩ := h.prepared
  obtain ⟨admissions, outcome, inert⟩ := h.inert
  have done : exec (Session.define store declaration spliced) b = (.ok admissions, _) :=
    Prod.ext outcome rfl
  exact ⟨admissions, _, done, inert, Session.burdened_of_define loaded prepared done inert⟩

/-- Whether it is to be overridable makes no difference to a declaration in vain. -/
theorem run (h : b.InVain store declaration spliced units) (loaded : b.Loaded) :
    ∃ b', exec (Session.run store spliced (.define declaration)) b = (.ok ⟨⟩, b') ∧
      b.Burdened b.unit (units.others b.unit) b' := by
  obtain ⟨admissions, b', done, inert, burdened⟩ := h.define loaded
  refine ⟨b', ?_, burdened⟩
  unfold Session.run
  rw [Step.exec_bind_of_ok done]
  split
  · exact Session.exec_grantRecorded_of_inert _ _ inert
  · rfl

end Bench.InVain

/-! ## Hooks -/

/-- What is put in place in a new extension has a hook with a declaration that is in vain when it is
executed; here it is left out. -/
inductive EmissionList.Omits (store : Store) (units : NameSet) (b : Bench)
    (emissions : EmissionList) : EmissionList → Prop where
  /-- The declaration is one of the first hook. -/
  | pre {before rest : Hook} {declaration : Declaration} {b' : Bench}
      (isHook : emissions.preHooks = [before ++ .define declaration :: rest])
      (reached : exec (Session.splice store [before]) b = (.ok ⟨⟩, b'))
      (inVain : b'.InVain store declaration true units) :
      Omits store units b emissions { emissions with preHooks := [before ++ rest] }
  /-- The declaration is one of the last hook. -/
  | post {before rest : Hook} {declaration : Declaration} {b' : Bench}
      (isHook : emissions.postHooks = [before ++ .define declaration :: rest])
      (reached : exec (Session.materialize store { emissions with postHooks := [before] }) b =
        (.ok ⟨⟩, b'))
      (inVain : b'.InVain store declaration true units) :
      Omits store units b emissions { emissions with postHooks := [before ++ rest] }

namespace Session

variable {store : Store} {units : NameSet} {b b' : Bench}

/-- A hook that is the only one is executed in two parts. -/
theorem exec_splice_append (before rest : Hook) (b : Bench) :
    exec (splice store [before ++ rest]) b =
      exec (splice store [before] >>= fun _ => splice store [rest]) b := by
  simp [splice, List.forM_append]

/-- What is put in place before the last hooks, and then these. -/
theorem exec_materialize_post (emissions : EmissionList) (b : Bench) :
    exec (materialize store emissions) b =
      exec (materialize store { emissions with postHooks := [] } >>= fun _ =>
        splice store emissions.postHooks) b := by
  simp [materialize, splice]

/-- A hook without its declaration in vain. -/
theorem splice_omits {before rest : Hook} {declaration : Declaration} (loaded : b.Loaded)
    (reached : exec (splice store [before]) b = (.ok ⟨⟩, b'))
    (inVain : b'.InVain store declaration true units) :
    (exec (splice store [before ++ .define declaration :: rest]) b).1 =
        (exec (splice store [before ++ rest]) b).1 ∧
      (exec (splice store [before ++ rest]) b).2.Burdened b.unit (units.others b.unit)
        (exec (splice store [before ++ .define declaration :: rest]) b).2 := by
  obtain ⟨events, runs, -⟩ := splice_performs store [before] b loaded
  rw [reached] at runs
  obtain ⟨b₁, done, burdened⟩ := inVain.run runs.loaded
  rw [show b'.unit = b.unit from runs.unit_eq] at burdened
  have first : exec (splice store [[.define declaration]]) b' = (.ok ⟨⟩, b₁) := by
    simpa [splice] using done
  have later : exec (splice store [[.define declaration] ++ rest]) b' =
      exec (splice store [rest]) b₁ := by
    rw [exec_splice_append, Step.exec_bind_of_ok first]
  rw [exec_splice_append, exec_splice_append, Step.exec_bind_of_ok reached,
    Step.exec_bind_of_ok reached]
  show (exec (splice store [[.define declaration] ++ rest]) b').1 = _ ∧
    Bench.Burdened _ _ _ (exec (splice store [[.define declaration] ++ rest]) b').2
  rw [later]
  exact splice_matches (Bench.unseen_burdened _ _) store [rest] burdened

/-- **Leaving a declaration out of a hook** that is in vain makes no difference to what is put in
place, but for what the unit requires. -/
theorem materialize_omits {emissions emissions' : EmissionList} (loaded : b.Loaded)
    (omits : emissions.Omits store units b emissions') :
    (exec (materialize store emissions) b).1 = (exec (materialize store emissions') b).1 ∧
      (exec (materialize store emissions') b).2.Burdened b.unit (units.others b.unit)
        (exec (materialize store emissions) b).2 := by
  have unseen := Bench.unseen_burdened b.unit (units.others b.unit)
  cases omits with
  | pre isHook reached inVain =>
    unfold materialize
    rw [isHook]
    exact Matches.exec_bind (splice_omits loaded reached inVain) fun _ =>
      materializeRest_matches unseen store emissions
  | @post before rest declaration b' isHook reached inVain =>
    -- The bench on which the last hook is executed is the same in both cases.
    rw [exec_materialize_post] at reached
    obtain ⟨_, b₁, first, reached⟩ := Step.exists_of_exec_bind_eq_ok reached
    obtain ⟨events, runs⟩ := materialize_runs loaded store { emissions with postHooks := [] }
    rw [first] at runs
    have last : ∀ hooks, exec (materialize store { emissions with postHooks := hooks }) b =
        exec (splice store hooks) b₁ := fun hooks => by
      rw [exec_materialize_post, Step.exec_bind_of_ok first]
    rw [last, last, isHook, ← runs.unit_eq]
    exact splice_omits runs.loaded reached inVain

end Session

/-! ## What an inert declaration leaves behind -/

namespace Workspace

variable {unit : String} {units : List String} {w w' : Workspace}

/-- **A unit with a burden.**  The second workspace comes about with an inert declaration, the first
one without it. -/
structure Hampers (unit : String) (units : List String) (w w' : Workspace) : Prop where
  /-- The two are the same, but for the declarations that stayed without effect, for warnings, and
  for the additional requirements. -/
  burdened : w.Burdened unit units w'
  /-- All later commands have the same outcomes and the same effects, if the additional requirements
  are covered whenever the unit is finished. -/
  later : ∀ commands : List Command, (∀ past future, commands = past ++ .finish unit :: future →
      ∀ u ∈ units, (w.afterAll past).program.Covers unit u) →
    w'.outcomes commands = w.outcomes commands ∧
      (w.afterAll commands).Burdened unit units (w'.afterAll commands)
  /-- But where the unit would be published while some of them are not loaded, it is refused. -/
  refused : ∀ commands : List Command, (∀ past future, commands = past ++ .finish unit :: future →
      ∀ u ∈ units, (w.afterAll past).program.Covers unit u) →
    ∀ reply, (w.afterAll commands).outcome (.finish unit) = .ok reply →
      (∃ u ∈ units, (w.afterAll commands).program.contains u = false) →
        ∃ missing, (w'.afterAll commands).outcome (.finish unit) =
            .error (.requirementsNotLoaded unit missing) ∧
          ∀ u, u ∈ missing ↔ u ∈ units ∧ (w.afterAll commands).program.contains u = false

theorem Burdened.hampers (h : w.Burdened unit units w') (coherent : w'.Coherent) :
    w.Hampers unit units w' where
  burdened := h
  later _ covered := h.afterAll coherent covered
  refused commands covered _ done lacking :=
    (h.afterAll coherent covered).2.finish_refused (coherent.afterAll commands) done lacking

end Workspace

/-- What a command declares, and whether it comes from a hook. -/
def Command.declares? : Command → Option (Declaration × Bool)
  | .define _ declaration => some (declaration, false)
  | .run _ (.define declaration) spliced => some (declaration, spliced)
  | _ => none

namespace Workspace

variable {w : Workspace} {command : Command} {units : NameSet}

/-- A command that declares in vain leaves a burden. -/
theorem Coherent.burdened_after (h : w.Coherent) {s : Session} {declaration : Declaration}
    {spliced : Bool} (session : w.sessions.get? command.unit = some s)
    (declares : command.declares? = some (declaration, spliced))
    (inVain : (w.bench s).InVain w.store declaration spliced units) :
    w.Burdened command.unit (units.others command.unit) (w.after command) := by
  have loaded := h.loaded session
  have named : (w.bench s).unit = command.unit := (h.session session).1
  -- A command to define and a statement that is run lead to the same bench.
  obtain ⟨m, isWork, b, done, burdened⟩ : ∃ m, command.work? w.store = some m ∧
      ∃ b, (exec m (w.bench s)).2 = b ∧
        (w.bench s).Burdened (w.bench s).unit (units.others (w.bench s).unit) b := by
    cases command with
    | define unit declaration' =>
      cases declares
      obtain ⟨admissions, b, done, -, burdened⟩ := inVain.define loaded
      exact ⟨_, rfl, b, by rw [Step.exec_bind_of_ok done]; rfl, burdened⟩
    | run unit statement spliced' =>
      cases statement with
      | define declaration' =>
        cases declares
        obtain ⟨b, done, burdened⟩ := inVain.run loaded
        exact ⟨_, rfl, b, by rw [Step.exec_bind_of_ok done]; rfl, burdened⟩
      | grant | withhold => cases declares
    | _ => cases declares
  have performed := exec_perform_of_work isWork
  rw [session] at performed
  have after : w.after command = w.withBench command.unit b :=
    (congrArg Prod.snd performed).trans (congrArg (w.withBench command.unit) done)
  rw [named] at burdened
  rw [after]
  refine ⟨rfl, burdened.program, burdened.warnings, ?_, fun u other => ?_⟩
  · show Option.Rel _ (w.sessions.get? command.unit) ((w.sessions.insert command.unit _).get? _)
    rw [get?_sessions_insert, if_pos rfl, session]
    exact .some burdened.session
  · show (w.sessions.insert command.unit _).get? u = _
    rw [get?_sessions_insert, if_neg (Ne.symm other)]

/-- Opening an extension in which a hook of the base declares in vain leaves a burden. -/
theorem burdened_opening {config : Config} {unit base : String}
    {fields : Value} {registry : Registry} {resolution : Resolution} {emissions : EmissionList}
    (published : w.store.get? base = some registry)
    (resolved : resolve registry fields unit config = .ok resolution)
    (fresh : w.program.contains unit = false)
    (omits : resolution.emissions.Omits w.store units
      (w.toSite.openingBench config resolution.draft) emissions) :
    w.outcome (.openExtension config unit base fields) =
        (exec (opening unit (Site.openResolved config resolution.draft emissions)) w).1 ∧
      (exec (opening unit (Site.openResolved config resolution.draft emissions)) w).2.Burdened unit
        (units.others unit) (w.after (.openExtension config unit base fields)) := by
  obtain ⟨named, -⟩ := draft_of_resolve resolved
  have fresh' : w.toSite.program.contains resolution.draft.unit = false := by rw [named, fresh]
  have loaded := (w.toSite.openingBench_shows config resolution.draft).loaded
  obtain ⟨outcome, burdened⟩ := Session.materialize_omits loaded omits
  rw [show (w.toSite.openingBench config resolution.draft).unit = unit from named] at burdened
  show (exec (opening unit (Site.openExtension config unit base fields)) w).1 = _ ∧
    Burdened _ _ _ (exec (opening unit (Site.openExtension config unit base fields)) w).2
  rw [exec_opening, exec_opening, Site.exec_openExtension_of_resolved published resolved,
    Site.exec_openResolved, Site.exec_openResolved, if_neg (Bool.eq_false_iff.1 fresh'),
    if_neg (Bool.eq_false_iff.1 fresh')]
  cases put : exec (Session.materialize w.store emissions)
      (w.toSite.openingBench config resolution.draft) with
  | mk result b =>
    cases put' : exec (Session.materialize w.store resolution.emissions)
        (w.toSite.openingBench config resolution.draft) with
    | mk result' b' =>
      rw [put, put'] at outcome burdened
      obtain rfl : result' = result := outcome
      cases result' with
      | error e =>
        refine ⟨rfl, rfl, burdened.program, burdened.warnings, ?_, fun _ _ => rfl⟩
        show Option.Rel _ (w.sessions.get? unit) (w.sessions.get? unit)
        cases w.sessions.get? unit with
        | none => exact .none
        | some s => exact .some (.refl s)
      | ok _ =>
        refine ⟨rfl, rfl, burdened.program, burdened.warnings, ?_, fun u other => ?_⟩
        · show Option.Rel _ ((w.sessions.insert unit _).get? unit)
            ((w.sessions.insert unit _).get? unit)
          rw [get?_sessions_insert, get?_sessions_insert, if_pos rfl, if_pos rfl]
          exact .some burdened.session
        · show (w.sessions.insert unit _).get? u = (w.sessions.insert unit _).get? u
          rw [get?_sessions_insert, get?_sessions_insert, if_neg (Ne.symm other),
            if_neg (Ne.symm other)]

/-- **Inert declarations.**  Let a unit declare something in any workspace that commands have led
to, itself or as a statement from a hook, and let all arities be inert.  Then the workspace is as it
would be without the declaration, but for the list of declarations without effect, for warnings, and
for one thing more: the image of the unit requires the other units that the declaration names.
Every later command has the outcome that it would have had, if these units are loaded, or required
anyway, whenever the unit is finished; and where they are not, a unit that would be published is
refused for them.  The same holds of an extension that is opened while a hook of its base declares
something inert. -/
theorem Reachable.inert_hampers {w : Workspace} (h : w.Reachable) (units : NameSet) :
    (∀ command s declaration spliced, w.sessions.get? command.unit = some s →
        command.declares? = some (declaration, spliced) →
        (w.bench s).InVain w.store declaration spliced units →
          w.Hampers command.unit (units.others command.unit) (w.after command)) ∧
      ∀ config unit base fields registry resolution emissions,
        w.store.get? base = some registry → w.program.contains unit = false →
        resolve registry fields unit config = .ok resolution →
        resolution.emissions.Omits w.store units (w.toSite.openingBench config resolution.draft)
          emissions →
          let opened := exec (opening unit (Site.openResolved config resolution.draft emissions)) w
          w.outcome (.openExtension config unit base fields) = opened.1 ∧
            opened.2.Hampers unit (units.others unit)
              (w.after (.openExtension config unit base fields)) := by
  have coherent := h.coherent
  constructor
  · intro command s declaration spliced session declares inVain
    exact (coherent.burdened_after session declares inVain).hampers (coherent.after command)
  · intro config unit base fields registry resolution emissions published fresh resolved omits
    obtain ⟨outcome, burdened⟩ := burdened_opening published resolved fresh omits
    exact ⟨outcome, burdened.hampers (coherent.after _)⟩

/-- What the hook of a base declares.  The body names another unit. -/
def hookDeclaration : Declaration := ⟨"f", [], .remoteCall "elsewhere" "g" [], [], false, false⟩

/-- A base locks a routine, and has a hook that declares it all the same. -/
def hookedBase : Workspace :=
  afterAll ∅ [.openRoot {} "base" (.list []),
    .define "base" ⟨"f", [], .literal (.text "base"), [], false, false⟩,
    .setHooks "base" (some [.define hookDeclaration]) none, .finish "base"]

/-- An extension of that base, where the unit that the hook names is loaded. -/
def inertWorkspace : Workspace :=
  hookedBase.afterAll
    [.openExtension {} "child" "base" (.list []), .openRoot {} "elsewhere" (.list [])]

/-- What the extension declares.  The body names a unit that nobody has opened. -/
def nowhereDeclaration : Declaration := ⟨"f", [], .remoteCall "nowhere" "g" [], [], false, false⟩

/-- **An inert declaration decides whether its unit can be published.** -/
theorem inert_declaration_refused :
    inertWorkspace.outcome (.define "child" nowhereDeclaration) = .ok (.admitted [.inert]) ∧
      (inertWorkspace.outcome (.finish "child")).isOk = true ∧
      (inertWorkspace.after (.define "child" nowhereDeclaration)).outcome (.finish "child") =
        .error (.requirementsNotLoaded "child" ["nowhere"]) := by
  cbv

/-- When the unit that is named has been opened, the extension is published as without the
declaration.  The declaration of the hook leaves a burden, too. -/
theorem inert_hampers_nowhere :
    inertWorkspace.Hampers "child" ["nowhere"]
        (inertWorkspace.after (.define "child" nowhereDeclaration)) ∧
      (inertWorkspace.after (.define "child" nowhereDeclaration)).outcomes
          [.openRoot {} "nowhere" (.list []), .finish "child"] =
        inertWorkspace.outcomes [.openRoot {} "nowhere" (.list []), .finish "child"] ∧
      ∃ unhooked : Workspace, unhooked.Hampers "child" ["elsewhere"]
        (hookedBase.after (.openExtension {} "child" "base" (.list []))) := by
  have reachable : hookedBase.Reachable := Reachable.empty.afterAll _
  have reachable' : inertWorkspace.Reachable := reachable.afterAll _
  have evaluated : (inertWorkspace.sessions.get? "child").map (fun s =>
        (Session.prepareAll inertWorkspace.store s.draft nowhereDeclaration,
          (exec (Session.define inertWorkspace.store nowhereDeclaration false)
            (inertWorkspace.bench s)).1)) =
        some (.ok (nowhereDeclaration.body, [], .ofList ["nowhere"]), .ok [.inert]) ∧
      (hookedBase.store.get? "base").map (fun registry =>
        (resolve registry (.list []) "child" {}).map fun r =>
          (r.emissions.preHooks, Session.prepareAll hookedBase.store r.draft hookDeclaration,
            (exec (Session.define hookedBase.store hookDeclaration true)
              (hookedBase.toSite.openingBench {} r.draft)).1)) =
        some (.ok ([[.define hookDeclaration]],
          .ok (hookDeclaration.body, [], .ofList ["elsewhere"]), .ok [.inert])) ∧
      hookedBase.program.contains "child" = false := by
    cbv
  obtain ⟨declared, hooked, fresh⟩ := evaluated
  obtain ⟨s, session, facts⟩ := Option.map_eq_some_iff.1 declared
  obtain ⟨prepared, admitted⟩ := Prod.mk.inj facts
  have inVain : (inertWorkspace.bench s).InVain inertWorkspace.store nowhereDeclaration false
      (.ofList ["nowhere"]) := ⟨⟨_, _, prepared⟩, _, admitted, by simp⟩
  have hampers := (Reachable.inert_hampers reachable' (.ofList ["nowhere"])).1
    (.define "child" nowhereDeclaration) s nowhereDeclaration false session rfl inVain
  refine ⟨hampers, (hampers.later _ fun past future same u listed => .inl ?_).1, ?_⟩
  · -- The unit is finished after the other one has been opened.
    rcases past with _ | ⟨command, _ | ⟨command', past⟩⟩
    · simp at same
    · obtain ⟨rfl, -⟩ := List.cons.inj same
      obtain rfl := List.mem_singleton.1 listed
      cbv
    · simp at same
  · obtain ⟨registry, published, resolves⟩ := Option.map_eq_some_iff.1 hooked
    cases resolved : resolve registry (.list []) "child" {} with
    | error e =>
      rw [resolved] at resolves
      cases resolves
    | ok resolution =>
      rw [resolved] at resolves
      obtain ⟨isHook, facts⟩ := Prod.mk.inj (Except.ok.inj resolves)
      obtain ⟨prepared, admitted⟩ := Prod.mk.inj facts
      have inVain : (hookedBase.toSite.openingBench {} resolution.draft).InVain hookedBase.store
          hookDeclaration true (.ofList ["elsewhere"]) := ⟨⟨_, _, prepared⟩, _, admitted, by simp⟩
      have omits : resolution.emissions.Omits hookedBase.store (.ofList ["elsewhere"])
          (hookedBase.toSite.openingBench {} resolution.draft)
          { resolution.emissions with preHooks := [[]] } :=
        @EmissionList.Omits.pre _ _ _ _ [] [] hookDeclaration _ isHook rfl inVain
      obtain ⟨-, hooks⟩ := Reachable.inert_hampers reachable (.ofList ["elsewhere"])
      exact ⟨_, (hooks {} "child" "base" (.list []) registry resolution _ published fresh resolved
        omits).2⟩

end Workspace

end Heredity
