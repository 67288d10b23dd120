import Heredity.Proofs.Agreement
import Heredity.Proofs.Compilation
import Heredity.Proofs.Opening
import Heredity.Proofs.Simulation

/-!
# Chains of units that build on each other

A root passes on a routine that returns its argument.  A chain of extensions stands on it; some of
them replace the routine by one that calls what it replaces and adds a number, the others declare
nothing.  However long the chain is, every unit in it adds up the numbers of the units below it and
its own.

* `Layer`, `chainCommands`, `groundCommands` — the commands by which such a chain is compiled.
* `Store.Adds` — a body that adds up numbers through published units; `Coherent.eval_adds` evaluates
  it.
* `Bench.Holds` — what a session of the chain looks like; `define_holds`, `grant_holds`,
  `close_holds` — what it does.
* `Workspace.Stands` — a unit of the chain is published; `Coherent.layer_stands` puts one on top.
* `Reachable.layers_add` — the whole chain.

**Bodies are bound when they are declared.**  The call of the replaced routine names the unit below,
whose registry is never written again.  So what a body adds up is settled when it is published
(`Store.Adds` speaks of the store only), and a copy in a unit further up adds up the same.
-/

namespace Heredity

open Step (exec)

/-! ## Chains -/

/-- An extension in a chain. -/
structure Layer where
  /-- The unit. -/
  unit : String
  /-- The options under which it is compiled. -/
  config : Config := {}
  /-- What it adds, if it replaces the routine. -/
  step : Option Int

/-- The routine that returns its argument. -/
def identityDeclaration (f x : String) : Declaration :=
  ⟨f, [.binding x], .var x, [], false, false⟩

/-- The routine that adds a number to what the replaced one returns. -/
def stepDeclaration (f x : String) (step : Int) : Declaration :=
  ⟨f, [.binding x], .primitive "+" [.superCall [.var x], .literal (.int step)], [], false, false⟩

/-- A unit declares the routine and permits descendants to replace it. -/
def settleCommands (unit : String) (declaration : Declaration) : List Command :=
  [.define unit declaration, .grant unit (.ofCount declaration.name 1)]

/-- The commands by which the root of a chain is compiled. -/
def groundCommands (config : Config) (ground f x : String) : List Command :=
  .openRoot config ground (.list []) ::
    (settleCommands ground (identityDeclaration f x) ++ [.finish ground])

namespace Layer

/-- What an extension declares. -/
def ownCommands (f x : String) (l : Layer) : List Command :=
  match l.step with
  | some step => settleCommands l.unit (stepDeclaration f x step)
  | none => []

/-- The commands by which an extension is compiled. -/
def commands (f x below : String) (l : Layer) : List Command :=
  .openExtension l.config l.unit below (.list []) :: (l.ownCommands f x ++ [.finish l.unit])

/-- The uppermost unit of a chain. -/
def top (ground : String) (layers : List Layer) : String := (layers.map unit).getLastD ground

/-- The sum of what the extensions add. -/
def total (layers : List Layer) : Int := (layers.filterMap step).sum

/-- The number of extensions that add something. -/
def overriding (layers : List Layer) : Nat := (layers.filterMap step).length

theorem top_cons (ground : String) (l : Layer) (layers : List Layer) :
    top ground (l :: layers) = top l.unit layers :=
  List.getLastD_cons ..

theorem total_cons (l : Layer) (layers : List Layer) :
    total (l :: layers) = l.step.getD 0 + total layers := by
  unfold total
  cases step : l.step <;> simp [step]

theorem overriding_cons (l : Layer) (layers : List Layer) :
    overriding (l :: layers) = l.step.toList.length + overriding layers := by
  unfold overriding
  cases step : l.step <;> simp [step, Nat.add_comm]

end Layer

/-- The commands by which the extensions of a chain are compiled, from the lowest to the uppermost.
-/
def chainCommands (f x : String) : String → List Layer → List Command
  | _, [] => []
  | below, l :: layers => l.commands f x below ++ chainCommands f x l.unit layers

/-! ## What a body adds up -/

/-- A body adds up numbers through published units: a total, with a number of calls. -/
inductive Store.Adds (store : Store) (f x : String) : Tree → Int → Nat → Prop where
  /-- The argument itself. -/
  | argument : Adds store f x (.var x) 0 0
  /-- The result of a published unit, and a number. -/
  | step {below : String} {registry : Registry} {r : RoutineRecord} {total : Int} {calls : Nat}
      (step : Int) (published : store.get? below = some registry)
      (recorded : registry.routines.get? (.ofCount f 1) = some r)
      (params : r.params = [.binding x]) (guards : r.guards = [])
      (rest : Adds store f x r.body total calls) :
      Adds store f x (.primitive "+" [.remoteCall below f [.var x], .literal (.int step)])
        (total + step) (calls + 1)

/-- What has been published stays, and so does what a body adds up. -/
theorem Store.Adds.mono {store store' : Store} {f x : String} {body : Tree} {total : Int}
    {calls : Nat} (h : store.Adds f x body total calls)
    (sub : ∀ {unit registry}, store.get? unit = some registry →
      store'.get? unit = some registry) : store'.Adds f x body total calls := by
  induction h with
  | argument => exact .argument
  | step step published recorded params guards _ ih =>
    exact .step step (sub published) recorded params guards ih

namespace Workspace

variable {w : Workspace} {f x : String}

/-- **A call of a published routine** with one parameter and no guards evaluates its body. -/
theorem Coherent.invoke_published (h : w.Coherent) {unit : String} {registry : Registry}
    {r : RoutineRecord} (published : w.store.get? unit = some registry)
    (recorded : registry.routines.get? (.ofCount f 1) = some r) (params : r.params = [.binding x])
    (guards : r.guards = []) (evaluate : Tree → Env → String → Except Error Value) (v : Value)
    (caller : Option String) :
    Program.invokeWith evaluate w.program unit f [v] caller =
      evaluate r.body ((∅ : Env).insert x v) unit := by
  obtain ⟨s, session, -, -⟩ := h.published published
  obtain ⟨-, image, held, -⟩ := h.session session
  obtain ⟨-, present, -, -⟩ := h.published_agrees published held
  obtain ⟨e, stored, carries⟩ := present recorded
  have answers := Program.callee_of_public stored carries.isPublic unit caller
  have isMatch : Tree.matchAll e.params [v] ∅ = .ok (true, (∅ : Env).insert x v) := by
    rw [carries.params, params]
    rfl
  rw [Program.invokeWith_of_checks held answers isMatch, carries.body]
  rw [carries.guards, guards]
  rfl

/-- **Evaluation.**  The value of such a body is the argument and the total; two levels of depth are
enough for each call. -/
theorem Coherent.eval_adds (h : w.Coherent) {body : Tree} {total : Int} {calls : Nat}
    (adds : w.store.Adds f x body total calls) {depth : Nat} {env : Env} {v : Int}
    (bound : env.get? x = some (.int v)) (enough : 2 * calls < depth) (unit : String) :
    w.program.eval depth body env unit = .ok (.int (v + total)) := by
  have argument : ∀ {depth env unit}, env.get? x = some (.int v) → 0 < depth →
      w.program.eval depth (.var x) env unit = .ok (.int v) := by
    intro depth env unit bound positive
    obtain ⟨depth, rfl⟩ := Nat.exists_eq_succ_of_ne_zero (Nat.ne_of_gt positive)
    rw [Program.eval, bound]
  induction adds generalizing depth env unit with
  | argument => rw [argument bound (by omega), Int.add_zero]
  | @step below registry r total calls step published recorded params guards rest ih =>
    -- One level is for the addition, one for the call.
    obtain ⟨depth, rfl⟩ : ∃ d, depth = d + 2 := ⟨depth - 2, by omega⟩
    have called : w.program.eval (depth + 1) (.remoteCall below f [.var x]) env unit =
        .ok (.int (v + total)) := by
      show ([Tree.var x].mapM fun arg => w.program.eval depth arg env unit) >>= _ = _
      rw [List.mapM_cons, argument bound (by omega)]
      show Program.invokeWith (w.program.eval depth) w.program below f [.int v] (some unit) = _
      rw [h.invoke_published published recorded params guards]
      exact ih (Table.get?_insert_self _ (by simp) _) (by omega) below
    rw [Program.eval_primitive]
    show ([_, _].mapM fun arg => w.program.eval (depth + 1) arg env unit) >>= _ = _
    rw [List.mapM_cons, called]
    show Except.ok (Value.int (v + total + step)) = _
    rw [Int.add_assoc]

end Workspace

/-! ## Sessions of the chain -/

/-- A registry records a routine at one key at most, and nothing is kept from descendants. -/
structure Registry.Lone (registry : Registry) (key : Key) (r? : Option RoutineRecord) : Prop where
  /-- The records. -/
  entries : registry.routines.entries = (r?.map (key, ·)).toList
  /-- No routine is private. -/
  privateKeys : registry.privateKeys = ∅
  /-- Nothing is withheld. -/
  withheld : registry.withheld = ∅
  /-- There are no hooks. -/
  free : registry.HookFree

namespace Registry.Lone

variable {registry : Registry} {key : Key} {r? : Option RoutineRecord} {r : RoutineRecord}

theorem get?_eq (h : registry.Lone key r?) : registry.routines.get? key = r? := by
  cases r? with
  | none => rw [Table.get?, Table.find?, h.entries]; rfl
  | some r =>
    exact Table.get?_eq_some_iff.2 ⟨key, by rw [h.entries]; exact List.mem_singleton_self _, BEq.rfl⟩

/-- Recording the routine leaves nothing else. -/
theorem entries_insert (h : registry.Lone key r?) (r : RoutineRecord) :
    (registry.routines.insert key r).entries = [(key, r)] := by
  have present := Table.get?_isSome registry.routines key
  rw [h.get?_eq] at present
  cases r? with
  | none =>
    rw [Table.insert_of_not_contains present.symm, h.entries]
    rfl
  | some old =>
    rw [Table.insert_of_contains present.symm, h.entries]
    simp [Table.assign]

end Registry.Lone

/-- A session of the chain: it has recorded nothing but the routine, and it names only units that
are loaded. -/
structure Bench.Holds (store : Store) (unit : String) (known : String → Prop) (key : Key)
    (r? : Option RoutineRecord) (b : Bench) : Prop where
  /-- What it names is loaded. -/
  sound : b.Sound store unit known known
  /-- The routine is the only one. -/
  lone : b.session.draft.toRegistry.Lone key r?
  /-- It may be written. -/
  writable : b.session.draft.closed = false

namespace Session

variable {store : Store} {unit : String} {known : String → Prop} {key : Key}
  {r? : Option RoutineRecord} {b : Bench}

/-- What was inherited with permission is replaced, for the permission is in the snapshot. -/
theorem assess_holds {r : RoutineRecord} {config : Config}
    (h : b.Holds store unit known key (some r))
    (ledger : b.session.ledger = Ledger.ofDraft config b.session.draft)
    (copied : r.origin = .copied) (permitted : r.permitted = true) :
    b.session.ledger.assess b.session.draft key false = .ok (.replace, none) := by
  have recorded : b.session.draft.routines.get? key = some r := h.lone.get?_eq
  have inherited : r.inherited = true := by
    rw [RoutineRecord.inherited, copied]
    rfl
  have withheld : b.session.draft.withheld.contains key = false := by
    rw [show b.session.draft.withheld = ∅ from h.lone.withheld]
    rfl
  have allowed : b.session.ledger.mayReplace key r = true := by
    rw [Ledger.mayReplace, ledger, Ledger.ofDraft, Ledger.get?_snapshot recorded inherited]
    exact permitted
  rw [Ledger.assess, withheld, if_neg Bool.false_ne_true, recorded]
  dsimp only
  rw [allowed, Bool.or_true, if_pos rfl]

/-- What the ledger lets in is recorded. -/
theorem exec_declarePublic_of_recorded (e : Emission) (units : NameSet) {spliced : Bool}
    {admission : Admission} (notPrivate : b.session.draft.privateKeys.contains e.key = false)
    (assessed : b.session.ledger.assess b.session.draft e.key spliced = .ok (admission, none))
    (isRecorded : admission.isRecorded = true) (writable : b.session.draft.closed = false) :
    exec (declarePublic e units spliced) b =
      (.ok admission, { b.withDraft (b.session.draft.recorded e units) with
        warnings := b.warnings ++ [] }) := by
  unfold declarePublic
  rw [Step.exec_get_bind, notPrivate, if_neg Bool.false_ne_true,
    Ledger.declare_of_recorded assessed isRecorded, if_neg (by rw [writable]; exact nofun),
    Step.exec_lift_ok_bind, Step.exec_set_bind, Step.exec_bind_of_ok (Bench.exec_warn _ _),
    isRecorded, if_pos rfl, Step.exec_bind, Bench.exec_updateDraft, Draft.addDependencies]
  rw [Draft.ensureOpen_of_open (by exact writable)]
  rfl

/-- Requirements are noted in the image; the session stays. -/
theorem exec_require_session {b : Bench} (loaded : b.Loaded) (units : List String) :
    ∃ b', exec (Bench.updateProgram (·.require b.unit units)) b = (.ok ⟨⟩, b') ∧
      b'.session = b.session := by
  obtain ⟨b', required, runs⟩ := exec_require loaded units
  obtain ⟨w, w', shows', shows'', trace, -⟩ := runs
  refine ⟨b', required, ?_⟩
  rw [shows'.1, shows''.1]
  cases trace with
  | cons first rest =>
    cases rest
    cases first
    rfl

/-- A variant that the ledger lets in is recorded and delivered. -/
theorem declareVariant_of_recorded (loaded : b.Loaded) {declaration : Declaration}
    (units : NameSet) {spliced : Bool} (v : Tree.Variant) {admission : Admission}
    (isPublic : declaration.isPrivate = false)
    (notPrivate : b.session.draft.privateKeys.contains (.ofCount declaration.name v.arity) = false)
    (assessed : b.session.ledger.assess b.session.draft (.ofCount declaration.name v.arity)
      spliced = .ok (admission, none))
    (isRecorded : admission.isRecorded = true) (writable : b.session.draft.closed = false) :
    ∃ b', exec (declareVariant declaration units spliced v) b = (.ok admission, b') ∧ b'.Loaded ∧
      b'.session.draft = b.session.draft.recorded (variantEmission declaration v) units := by
  obtain ⟨image, held⟩ := loaded
  have inert : admission ≠ .inert := by
    rintro rfl
    cases isRecorded
  have declared := exec_declarePublic_of_recorded (variantEmission declaration v) units notPrivate
    assessed isRecorded writable
  have delivered := exec_declared (e := variantEmission declaration v) declared held inert
  have same : exec (declareVariant declaration units spliced v) b =
      exec (do
        let a ← declarePublic (variantEmission declaration v) units spliced
        deliver (variantEmission declaration v) a
        return a) b := by
    unfold declareVariant
    dsimp only
    rw [isPublic]
    rfl
  exact ⟨_, same.trans delivered, ⟨_, (Program.get?_setImage _ _ _ _).trans (if_pos rfl)⟩, rfl⟩

/-- **A declaration of the routine** that the ledger lets in is recorded. -/
theorem define_holds {f x : String} (h : b.Holds store unit known (.ofCount f 1) r?)
    {declaration : Declaration} {body : Tree} {units : NameSet} {admission : Admission}
    (named : declaration.name = f) (params : declaration.params = [.binding x])
    (isPublic : declaration.isPrivate = false)
    (written : (Statement.define declaration).Within known)
    (prepared : prepareAll store b.session.draft declaration = .ok (body, [], units))
    (assessed : b.session.ledger.assess b.session.draft (.ofCount f 1) false =
      .ok (admission, none))
    (isRecorded : admission.isRecorded = true) :
    ∃ b', exec (define store declaration false) b = (.ok [admission], b') ∧
      b'.Holds store unit known (.ofCount f 1)
        (some (Ledger.nativeRecord [.binding x] [] body)) := by
  subst named
  have variants : Tree.expandDefaults declaration.name declaration.params [] body
      b.session.config.stem = [⟨1, [.binding x], [], body⟩] := by
    rw [params]
    rfl
  have notPrivate : b.session.draft.privateKeys.contains (.ofCount declaration.name 1) = false := by
    rw [h.lone.privateKeys]
    rfl
  obtain ⟨b₁, declared, loaded, draft⟩ :=
    declareVariant_of_recorded h.sound.isLoaded units ⟨1, [.binding x], [], body⟩ isPublic
      notPrivate assessed isRecorded h.writable
  obtain ⟨b₂, required, session⟩ := exec_require_session loaded units.toList
  have unit_eq : b₁.unit = b.unit := (congrArg (fun d : Draft => d.unit) draft :)
  obtain ⟨b', done, draft'⟩ : ∃ b', exec (define store declaration false) b =
      (.ok [admission], b') ∧ b'.session.draft = b₁.session.draft := by
    have each : exec ([(⟨1, [.binding x], [], body⟩ : Tree.Variant)].mapM
        (declareVariant declaration units false)) b = (.ok [admission], b₁) := by
      rw [List.mapM_cons, Step.exec_bind_of_ok declared]
      rfl
    unfold define
    rw [Step.exec_get_bind, prepared, Step.exec_lift_ok_bind]
    dsimp only
    rw [variants, Step.exec_bind_of_ok each]
    cases units.isEmpty with
    | true => exact ⟨b₁, rfl, rfl⟩
    | false =>
      rw [unit_eq] at required
      rw [Bool.not_false, if_pos rfl, Step.exec_bind_of_ok required]
      exact ⟨b₂, rfl, congrArg Session.draft session⟩
  have sound := (define_safe written false b h.sound).1
  rw [done] at sound
  refine ⟨b', done, sound, ?_, ?_⟩
  · rw [draft', draft]
    exact { h.lone with entries := h.lone.entries_insert _ }
  · rw [draft', draft]
    exact h.writable

/-- **A grant** of the routine. -/
theorem grant_holds {r : RoutineRecord} (h : b.Holds store unit known key (some r)) :
    ∃ b', exec (grant key) b = (.ok ⟨⟩, b') ∧
      b'.Holds store unit known key (some { r with permitted := true }) := by
  have recorded : b.session.draft.routines.get? key = some r := h.lone.get?_eq
  have granted : Ledger.grant b.session.draft key = .ok { b.session.draft with
      routines := b.session.draft.routines.insert key { r with permitted := true } } := by
    rw [Ledger.grant, recorded]
    show Draft.record _ _ _ = _
    rw [Draft.record, Draft.ensureOpen_of_open h.writable]
    rfl
  have done := Bench.exec_updateDraft (Ledger.grant · key) b
  rw [granted] at done
  have sound := (grant_safe key b h.sound).1
  rw [grant, done] at sound
  exact ⟨_, done, sound, { h.lone with entries := h.lone.entries_insert _ }, h.writable⟩

/-- **Closing** hands out the registry. -/
theorem close_holds (h : b.Holds store unit known key r?) :
    ∃ b', exec close b = (.ok b'.session.draft.toRegistry, b') ∧
      b'.Sound store unit known known ∧ b'.session.draft.toRegistry.Lone key r? := by
  obtain ⟨w, shows', within⟩ := h.sound.within
  have apart : b.session.draft.recordsWithheld = false := by
    rw [Draft.recordsWithheld, h.lone.withheld]
    rfl
  have complete : b.program.missing w.image = [] :=
    Program.missing_eq_nil_iff.2 fun u required => h.sound.loaded u (within.requires u required)
  have done := exec_close_of_complete shows'.2 h.writable apart complete
  rcases close_cases h.sound with ⟨error, failed, -⟩ | ⟨b', done', sound⟩
  · rw [done] at failed
    cases failed
  · obtain ⟨-, rfl⟩ := Prod.mk.inj (done.symm.trans done')
    exact ⟨_, done', sound, h.lone⟩

end Session

/-! ## Units on top of each other -/

theorem Store.Adds.qualify_eq {store : Store} {f x : String} {body : Tree} {total : Int}
    {calls : Nat} (h : store.Adds f x body total calls) (imports : Table Key String) :
    ∃ units, body.qualify imports = .ok (body, units) := by
  cases h <;> exact ⟨_, rfl⟩

/-- **What an extension inherits.**  The routine is copied, with its body and its flag. -/
theorem Registry.Lone.resolve_eq {registry : Registry} {key : Key} {r : RoutineRecord} {x : String}
    (h : registry.Lone key (some r)) (params : r.params = [.binding x]) (guards : r.guards = [])
    {units : NameSet} (qualified : r.body.qualify registry.imports = .ok (r.body, units))
    (config : Config) (unit : String) :
    ∃ resolution, resolve registry (.list []) unit config = .ok resolution ∧
      resolution.draft.toRegistry.Lone key (some { r with origin := .copied }) := by
  have triggers : registry.triggers config = ∅ := by
    unfold Registry.triggers
    rw [h.privateKeys, h.withheld]
    split <;> rfl
  have independent : Tree.routineCalls ∅ r.params r.guards r.body = false := by
    rw [params, guards, Tree.routineCalls, Tree.calls_empty]
    rfl
  have becomes : inheritRoutine config registry key r =
      .ok ({ r with origin := .copied }, units.toList ++ []) := by
    rw [inheritRoutine, triggers, independent, if_neg Bool.false_ne_true, copyRoutine, qualified,
      guards, params]
    rfl
  have passedOn : registry.passedOn = [(key, r)] := by
    rw [Registry.passedOn, h.entries, h.withheld]
    rfl
  have inherits : inheritAll config registry =
      .ok [⟨key, { r with origin := .copied }, units.toList ++ []⟩] := by
    rw [inheritAll, passedOn, List.mapM_cons, becomes]
    rfl
  obtain ⟨resolution, resolved, draft⟩ : ∃ resolution,
      resolve registry (.list []) unit config = .ok resolution ∧
        resolution.draft = inheritedDraft registry unit registry.fields
          [⟨key, { r with origin := .copied }, units.toList ++ []⟩] := by
    unfold resolve
    rw [inherits]
    exact ⟨_, rfl, rfl⟩
  refine ⟨resolution, resolved, ?_⟩
  rw [draft]
  exact ⟨rfl, rfl, h.withheld, h.free⟩

/-- A unit of a chain is published.  Its registry records the routine only, which descendants may
replace and which adds up a total; and it names loaded units only. -/
def Workspace.Stands (w : Workspace) (f x unit : String) (total : Int) (calls : Nat) : Prop :=
  ∃ registry r, w.store.get? unit = some registry ∧ registry.Lone (.ofCount f 1) (some r) ∧
    r.params = [.binding x] ∧ r.guards = [] ∧ r.permitted = true ∧
    w.store.Adds f x r.body total calls ∧ registry.Within (w.program.contains · = true)

/-- A command has succeeded, and what it declared is recorded: no declaration is inert. -/
def Effective : Except Error Reply → Prop
  | .ok (.admitted admissions) => ∀ admission ∈ admissions, admission.isRecorded = true
  | .ok _ => True
  | .error _ => False

namespace Workspace

variable {w : Workspace} {f x unit below : String}

/-- A session of the chain is open in a workspace. -/
def Builds (w : Workspace) (unit : String) (known : String → Prop) (key : Key)
    (r? : Option RoutineRecord) : Prop :=
  ∃ s, w.sessions.get? unit = some s ∧ (w.bench s).Holds w.store unit known key r?

/-- What a session has worked at is where it was. -/
theorem after_eq_of_work (command : Command) {m : Step Bench Reply} {s : Session} {reply : Reply}
    {b : Bench} (isWork : command.work? w.store = some m)
    (session : w.sessions.get? command.unit = some s) (done : exec m (w.bench s) = (.ok reply, b)) :
    w.outcome command = .ok reply ∧ w.after command = w.withBench command.unit b := by
  have performed := exec_perform_of_work isWork
  rw [session] at performed
  dsimp only at performed
  rw [done] at performed
  exact ⟨congrArg Prod.fst performed, congrArg Prod.snd performed⟩

theorem builds_withBench {known : String → Prop} {key : Key} {r? : Option RoutineRecord} {b : Bench}
    (holds : b.Holds w.store unit known key r?) : (w.withBench unit b).Builds unit known key r? :=
  ⟨b.session, (get?_sessions_insert ..).trans (if_pos rfl), holds⟩

/-- **Declaring the routine and granting it.** -/
theorem settle_builds {known : String → Prop} {r? : Option RoutineRecord} {s : Session}
    (session : w.sessions.get? unit = some s)
    (holds : (w.bench s).Holds w.store unit known (.ofCount f 1) r?) {declaration : Declaration}
    {body : Tree} {units : NameSet} {admission : Admission} (named : declaration.name = f)
    (params : declaration.params = [.binding x]) (isPublic : declaration.isPrivate = false)
    (written : (Statement.define declaration).Within known)
    (prepared : Session.prepareAll w.store s.draft declaration = .ok (body, [], units))
    (assessed : s.ledger.assess s.draft (.ofCount f 1) false = .ok (admission, none))
    (isRecorded : admission.isRecorded = true) :
    (∀ outcome ∈ w.outcomes (settleCommands unit declaration), Effective outcome) ∧
      (w.afterAll (settleCommands unit declaration)).store = w.store ∧
      (w.afterAll (settleCommands unit declaration)).Builds unit known (.ofCount f 1)
        (some ⟨[.binding x], [], body, .native, true⟩) := by
  obtain ⟨b₁, defined, holds₁⟩ := Session.define_holds holds named params isPublic written prepared
    assessed isRecorded
  obtain ⟨b₂, granted, holds₂⟩ := Session.grant_holds holds₁
  obtain ⟨defines, after⟩ := after_eq_of_work (.define unit declaration) rfl session
    (by rw [Step.exec_bind_of_ok defined]; rfl)
  have session₁ : (w.after (.define unit declaration)).sessions.get? unit = some b₁.session := by
    rw [after]
    exact (get?_sessions_insert ..).trans (if_pos rfl)
  have granted' : exec (Session.grant (.ofCount declaration.name 1))
      ((w.after (.define unit declaration)).bench b₁.session) = (.ok ⟨⟩, b₂) := by
    rw [after, named]
    exact granted
  obtain ⟨grants, after'⟩ := after_eq_of_work (.grant unit (.ofCount declaration.name 1)) rfl
    session₁ (by rw [Step.exec_bind_of_ok granted']; rfl)
  refine ⟨?_, ?_, ?_⟩
  · show ∀ outcome ∈ [_, _], Effective outcome
    rw [defines, grants]
    simpa [Effective] using isRecorded
  · show ((w.after _).after _).store = _
    rw [after', after]
    rfl
  · show ((w.after _).after _).Builds _ _ _ _
    rw [after', after]
    exact builds_withBench holds₂

/-- **Finishing** publishes what the session holds. -/
theorem Coherent.finish_stands (h : w.Coherent) {known : String → Prop} {r : RoutineRecord}
    {total : Int} {calls : Nat} (builds : w.Builds unit known (.ofCount f 1) (some r))
    (params : r.params = [.binding x]) (guards : r.guards = []) (permitted : r.permitted = true)
    (adds : w.store.Adds f x r.body total calls) :
    Effective (w.outcome (.finish unit)) ∧
      (w.after (.finish unit)).Stands f x unit total calls := by
  obtain ⟨s, session, holds⟩ := builds
  obtain ⟨b, closed, sound, lone⟩ := Session.close_holds holds
  have named : b.session.draft.toRegistry.unit = unit := sound.unit
  have performed := h.exec_finish_of_close session holds.writable named closed
  have after : w.after (.finish unit) =
      (w.withBench unit b).publishing b.session.draft.toRegistry := congrArg Prod.snd performed
  have outcome : w.outcome (.finish unit) = .ok (.published b.session.draft.toRegistry) :=
    congrArg Prod.fst performed
  obtain ⟨w', shows', within⟩ := sound.within
  refine ⟨by rw [outcome]; trivial, b.session.draft.toRegistry, r, ?_, lone, params, guards,
    permitted, adds.mono h.store_after, ?_⟩
  · rw [after]
    show (w.store.published.insert b.session.draft.toRegistry.unit _).get? unit = _
    rw [named]
    exact Table.get?_insert_self _ (by simp) _
  · rw [after]
    have draft : b.session.draft.toRegistry.Within known := by
      rw [shows'.1]
      exact within.draft
    exact draft.mono sound.loaded

/-- **Opening the root** of a chain. -/
theorem open_ground (config : Config) (f : String) (fresh : w.program.contains unit = false) :
    w.outcome (.openRoot config unit (.list [])) = .ok .done ∧
      (w.after (.openRoot config unit (.list []))).store = w.store ∧
      ∃ s, (w.after (.openRoot config unit (.list []))).sessions.get? unit = some s ∧
        ((w.after (.openRoot config unit (.list []))).bench s).Holds w.store unit
          (fun u => u = unit ∨ w.program.contains u = true) (.ofCount f 1) none ∧
        s = Site.newSession config { unit := unit } := by
  have opened : exec (Site.openRoot config unit (.list [])) w.toSite = _ :=
    Site.exec_openRoot_of_merge rfl fresh
  have performed := exec_opening_of_ok unit opened
  have after : w.after (.openRoot config unit (.list [])) = _ := congrArg Prod.snd performed
  have sound : (w.toSite.openingBench config { unit := unit }).Sound w.store unit
      (fun u => u = unit ∨ w.program.contains u = true) _ :=
    w.toSite.openingBench_root_sound config unit ∅
  refine ⟨congrArg Prod.fst performed, by rw [after]; rfl, _, ?_, ?_, rfl⟩
  · rw [after]
    exact (get?_sessions_insert ..).trans (if_pos rfl)
  · rw [after]
    exact ⟨sound, ⟨rfl, rfl, rfl, rfl, rfl⟩, rfl⟩

/-- **Opening an extension** on top of a unit of a chain. -/
theorem Coherent.open_layer (h : w.Coherent) {total : Int} {calls : Nat}
    (stands : w.Stands f x below total calls) (config : Config)
    (fresh : w.program.contains unit = false) :
    w.outcome (.openExtension config unit below (.list [])) = .ok .done ∧
      (w.after (.openExtension config unit below (.list []))).store = w.store ∧
      ∃ s r, (w.after (.openExtension config unit below (.list []))).sessions.get? unit = some s ∧
        ((w.after (.openExtension config unit below (.list []))).bench s).Holds w.store unit
          (fun u => u = unit ∨ w.program.contains u = true) (.ofCount f 1) (some r) ∧
        s.draft.base = some below ∧ s.ledger = Ledger.ofDraft config s.draft ∧
        r.params = [.binding x] ∧ r.guards = [] ∧ r.permitted = true ∧ r.origin = .copied ∧
        w.store.Adds f x r.body total calls := by
  obtain ⟨registry, r, published, lone, params, guards, permitted, adds, within⟩ := stands
  obtain ⟨units, qualified⟩ := adds.qualify_eq registry.imports
  obtain ⟨resolution, resolved, inherited⟩ :=
    lone.resolve_eq params guards qualified config unit
  obtain ⟨named, base, -, -, -, writable⟩ := draft_of_resolve resolved
  obtain ⟨s, session, -, -⟩ := h.published published
  obtain ⟨-, image, held, -⟩ := h.session session
  obtain ⟨unit_eq, -⟩ := h.published_agrees published held
  have loaded : w.program.contains below = true := Table.contains_iff_exists_get?.2 ⟨image, held⟩
  have known : registry.Within fun u => u = unit ∨ w.program.contains u = true :=
    within.mono fun _ => .inr
  have isBase : registry.unit = unit ∨ w.program.contains registry.unit = true :=
    .inr (unit_eq ▸ loaded)
  obtain ⟨b, _, materialized, -, inPlace⟩ := lone.free.exec_materialize resolved w.toSite
  have same : b.session = Site.newSession config resolution.draft := inPlace.session
  have sound : b.Sound w.store unit (fun u => u = unit ∨ w.program.contains u = true)
      (fun u => u = unit ∨ w.program.contains u = true) := by
    have opening := w.toSite.openingBench_resolved_sound resolved known isBase
      ⟨registry, unit_eq ▸ published⟩
    have kept := (Session.materialize_safe_of_resolve resolved known isBase _ opening).1
    rw [materialized] at kept
    exact kept
  have opened := Site.exec_openExtension_of_resolve published resolved (named ▸ fresh) materialized
  have performed := exec_opening_of_ok unit opened
  have after : w.after (.openExtension config unit below (.list [])) = _ :=
    congrArg Prod.snd performed
  refine ⟨congrArg Prod.fst performed, by rw [after], b.session, { r with origin := .copied },
    ?_, ⟨?_, ?_, ?_⟩, ?_, ?_, params, guards, permitted, rfl, adds⟩
  · rw [after]
    exact (get?_sessions_insert ..).trans (if_pos rfl)
  · rw [after]
    exact sound
  · rw [same]
    exact inherited
  · rw [same]
    exact writable
  · rw [same, ← unit_eq]
    exact base
  · rw [same]
    rfl

/-- **Declaring, granting and finishing** publish the routine. -/
theorem Coherent.settle_stands (h : w.Coherent) {known : String → Prop} {r? : Option RoutineRecord}
    {s : Session} (session : w.sessions.get? unit = some s)
    (holds : (w.bench s).Holds w.store unit known (.ofCount f 1) r?) {declaration : Declaration}
    {body : Tree} {units : NameSet} {admission : Admission} {total : Int} {calls : Nat}
    (named : declaration.name = f) (params : declaration.params = [.binding x])
    (isPublic : declaration.isPrivate = false)
    (written : (Statement.define declaration).Within known)
    (prepared : Session.prepareAll w.store s.draft declaration = .ok (body, [], units))
    (assessed : s.ledger.assess s.draft (.ofCount f 1) false = .ok (admission, none))
    (isRecorded : admission.isRecorded = true) (adds : w.store.Adds f x body total calls) :
    (∀ outcome ∈ w.outcomes (settleCommands unit declaration ++ [.finish unit]),
        Effective outcome) ∧
      (w.afterAll (settleCommands unit declaration ++ [.finish unit])).Stands f x unit total
        calls := by
  obtain ⟨effective, store, builds⟩ :=
    settle_builds session holds named params isPublic written prepared assessed isRecorded
  obtain ⟨finished, stands⟩ :=
    (h.afterAll (settleCommands unit declaration)).finish_stands builds rfl rfl rfl (store ▸ adds)
  rw [outcomes_append, afterAll_append]
  exact ⟨List.forall_mem_append.2 ⟨effective, List.forall_mem_singleton.2 finished⟩, stands⟩

/-- **The root of a chain.** -/
theorem Coherent.ground_stands (h : w.Coherent) (config : Config) (f x : String)
    (fresh : w.program.contains unit = false) :
    (∀ outcome ∈ w.outcomes (groundCommands config unit f x), Effective outcome) ∧
      (w.afterAll (groundCommands config unit f x)).Stands f x unit 0 0 := by
  obtain ⟨opens, store, s, session, holds, rfl⟩ := open_ground config f fresh
  have opened := h.after (.openRoot config unit (.list []))
  have written : (Statement.define (identityDeclaration f x)).Within
      fun u => u = unit ∨ w.program.contains u = true :=
    List.forall_mem_cons.2
      ⟨List.forall_mem_nil _, List.forall_mem_singleton.2 (List.forall_mem_nil _)⟩
  obtain ⟨effective, stands⟩ := opened.settle_stands session (store ▸ holds) rfl rfl rfl written
    rfl rfl rfl .argument
  rw [groundCommands, outcomes, afterAll_cons, List.forall_mem_cons, opens]
  exact ⟨⟨trivial, effective⟩, stands⟩

end Workspace

theorem Session.prepareAll_stepDeclaration {store : Store} {d : Draft} {f below : String}
    {registry : Registry} (base : d.base = some below)
    (published : store.get? below = some registry)
    (contains : registry.routines.contains (.ofCount f 1) = true) (x : String) (step : Int) :
    ∃ units, prepareAll store d (stepDeclaration f x step) =
      .ok (.primitive "+" [.remoteCall below f [.var x], .literal (.int step)], [], units) := by
  have checked : checkSuperCall store d (.ofCount f 1) = .ok ⟨⟩ := by
    unfold checkSuperCall
    rw [base]
    dsimp only
    rw [Store.require, published]
    show (if registry.routines.contains (.ofCount f 1) then _ else _) = _
    rw [contains]
    rfl
  have checks : checkSuperCalls store d f (stepDeclaration f x step).body = .ok ⟨⟩ := by
    show (checkSuperCall store d (.ofCount f 1) >>= fun _ => _) = _
    rw [checked]
    rfl
  unfold prepareAll prepare
  rw [show (stepDeclaration f x step).name = f from rfl, checks, base]
  exact ⟨_, rfl⟩

namespace Workspace

variable {w : Workspace} {f x unit below : String}

/-- **One more unit** on top of a chain. -/
theorem Coherent.layer_stands (h : w.Coherent) {total : Int} {calls : Nat}
    (stands : w.Stands f x below total calls) (l : Layer)
    (fresh : w.program.contains l.unit = false) :
    (∀ outcome ∈ w.outcomes (l.commands f x below), Effective outcome) ∧
      (w.afterAll (l.commands f x below)).Stands f x l.unit (total + l.step.getD 0)
        (calls + l.step.toList.length) := by
  obtain ⟨opens, store, s, r, session, holds, base, ledger, params, guards, permitted, copied,
    adds⟩ := h.open_layer stands l.config fresh
  have opened := h.after (.openExtension l.config l.unit below (.list []))
  rw [← store] at holds adds
  suffices rest : (∀ outcome ∈ (w.after (.openExtension l.config l.unit below (.list []))).outcomes
      (l.ownCommands f x ++ [.finish l.unit]), Effective outcome) ∧
      ((w.after (.openExtension l.config l.unit below (.list []))).afterAll
        (l.ownCommands f x ++ [.finish l.unit])).Stands f x l.unit (total + l.step.getD 0)
          (calls + l.step.toList.length) by
    rw [Layer.commands, outcomes, afterAll_cons, List.forall_mem_cons, opens]
    exact ⟨⟨trivial, rest.1⟩, rest.2⟩
  unfold Layer.ownCommands
  cases l.step with
  | none =>
    obtain ⟨finished, stands'⟩ :=
      opened.finish_stands ⟨s, session, holds⟩ params guards permitted adds
    refine ⟨List.forall_mem_singleton.2 finished, ?_⟩
    show Stands _ f x l.unit (total + 0) (calls + 0)
    rw [Int.add_zero, Nat.add_zero]
    exact stands'
  | some step =>
    obtain ⟨registry, r', published, lone, params', guards', -, adds', -⟩ := stands
    rw [← store] at published adds'
    have recorded' := lone.get?_eq
    obtain ⟨units, prepared⟩ := Session.prepareAll_stepDeclaration base published
      (Table.contains_iff_exists_get?.2 ⟨r', recorded'⟩) x step
    have written : (Statement.define (stepDeclaration f x step)).Within
        fun u => u = l.unit ∨ w.program.contains u = true :=
      List.forall_mem_cons.2
        ⟨List.forall_mem_nil _, List.forall_mem_singleton.2 (List.forall_mem_nil _)⟩
    have assessed : s.ledger.assess s.draft (.ofCount f 1) false = .ok (.replace, none) :=
      Session.assess_holds holds ledger copied permitted
    exact opened.settle_stands session holds rfl rfl rfl written prepared assessed rfl
      (.step step published recorded' params' guards' adds')

/-- A published unit of a chain stands, whatever is done afterwards. -/
theorem Stands.afterAll (h : w.Coherent) {total : Int} {calls : Nat}
    (stands : w.Stands f x unit total calls) (commands : List Command) :
    (w.afterAll commands).Stands f x unit total calls := by
  obtain ⟨registry, r, published, lone, params, guards, permitted, adds, within⟩ := stands
  exact ⟨registry, r, h.store_afterAll published commands, lone, params, guards, permitted,
    adds.mono fun found => h.store_afterAll found commands,
    within.mono fun _ loaded => h.contains_afterAll commands loaded⟩

/-- A unit that was not opened is not opened by what is done for another. -/
theorem Coherent.fresh_afterAll (h : w.Coherent) {commands : List Command}
    (own : ∀ command ∈ commands, command.unit = unit) {other : String} (ne : other ≠ unit)
    (fresh : w.program.contains other = false) :
    (w.afterAll commands).program.contains other = false := by
  rw [Program.contains, ← Table.get?_eq_none_iff] at fresh ⊢
  rw [h.elsewhere_afterAll fun command isOwn => by rwa [own command isOwn], fresh]

/-- **A chain of extensions.**  After all of them are compiled, each stands on the one below. -/
theorem Coherent.chain_stands (h : w.Coherent) {total : Int} {calls : Nat}
    (stands : w.Stands f x below total calls) {layers : List Layer}
    (fresh : ∀ l ∈ layers, w.program.contains l.unit = false)
    (distinct : (layers.map Layer.unit).Nodup) :
    (∀ outcome ∈ w.outcomes (chainCommands f x below layers), Effective outcome) ∧
      ∀ lower upper, layers = lower ++ upper →
        (w.afterAll (chainCommands f x below layers)).Stands f x (Layer.top below lower)
          (total + Layer.total lower) (calls + Layer.overriding lower) := by
  induction layers generalizing w below total calls with
  | nil =>
    refine ⟨fun _ none => (nomatch none), fun lower upper split => ?_⟩
    obtain ⟨rfl, -⟩ := List.append_eq_nil_iff.1 split.symm
    show w.Stands f x below (total + 0) (calls + 0)
    rwa [Int.add_zero, Nat.add_zero]
  | cons l layers ih =>
    obtain ⟨new, distinct⟩ := List.nodup_cons.1 distinct
    obtain ⟨effective, stands'⟩ := h.layer_stands stands l (fresh l List.mem_cons_self)
    have own : ∀ command ∈ l.commands f x below, command.unit = l.unit := by
      unfold Layer.commands Layer.ownCommands
      cases l.step <;> simp [settleCommands, Command.unit]
    have fresh' : ∀ l' ∈ layers,
        (w.afterAll (l.commands f x below)).program.contains l'.unit = false := by
      intro l' member
      have other : l'.unit ≠ l.unit := fun same => new (List.mem_map.2 ⟨l', member, same⟩)
      exact h.fresh_afterAll own other (fresh l' (List.mem_cons_of_mem l member))
    obtain ⟨effective', later⟩ := ih (h.afterAll _) stands' fresh' distinct
    rw [chainCommands, outcomes_append]
    refine ⟨List.forall_mem_append.2 ⟨effective, effective'⟩, fun lower upper split => ?_⟩
    cases lower with
    | nil =>
      have still := stands.afterAll h (l.commands f x below ++ chainCommands f x l.unit layers)
      show Stands _ f x below (total + 0) (calls + 0)
      rwa [Int.add_zero, Nat.add_zero]
    | cons l' lower =>
      obtain ⟨rfl, rest⟩ := List.cons.inj split
      rw [afterAll_append, Layer.top_cons, Layer.total_cons, Layer.overriding_cons,
        ← Int.add_assoc, ← Nat.add_assoc]
      exact later lower upper rest

/-- **Chains add up.**  Compile a root with the routine that returns its argument, and on top of it
any number of extensions, of which some replace the routine by one that adds a number to what the
replaced one returns, and the others declare nothing.  Every command succeeds, and every declaration
is recorded.  Afterwards each unit of the chain answers a call with the argument and the numbers of
all units up to it; two levels of depth are needed for each of those that add something.  The limit
on calls from outside is one on levels, too, and not on the frames of a host
(`Program.depthLimit`). -/
theorem Reachable.layers_add (h : w.Reachable) (config : Config) (ground f x : String)
    (layers : List Layer)
    (fresh : ∀ unit ∈ ground :: layers.map Layer.unit, w.program.contains unit = false)
    (distinct : (ground :: layers.map Layer.unit).Nodup) :
    let commands := groundCommands config ground f x ++ chainCommands f x ground layers
    let p := (w.afterAll commands).program
    (∀ outcome ∈ w.outcomes commands, Effective outcome) ∧
      ∀ lower upper, layers = lower ++ upper → ∀ v : Int,
        let outcome : Except Error Value := .ok (.int (v + Layer.total lower))
        p.Answers (Layer.top ground lower) f [.int v] outcome ∧
          (∀ depth, 2 * Layer.overriding lower < depth →
            p.callWithin depth (Layer.top ground lower) f [.int v] = outcome) ∧
          (2 * Layer.overriding lower < Program.depthLimit →
            p.call (Layer.top ground lower) f [.int v] = outcome) := by
  intro commands p
  obtain ⟨new, distinct⟩ := List.nodup_cons.1 distinct
  obtain ⟨isFresh, areFresh⟩ := List.forall_mem_cons.1 fresh
  obtain ⟨effective, stands⟩ := h.coherent.ground_stands config f x isFresh
  have own : ∀ command ∈ groundCommands config ground f x, command.unit = ground := by
    simp [groundCommands, settleCommands, Command.unit]
  have fresh' : ∀ l ∈ layers,
      (w.afterAll (groundCommands config ground f x)).program.contains l.unit = false := by
    intro l member
    have other : l.unit ≠ ground := fun same => new (List.mem_map.2 ⟨l, member, same⟩)
    exact h.coherent.fresh_afterAll own other (areFresh l.unit (List.mem_map.2 ⟨l, member, rfl⟩))
  obtain ⟨effective', chain⟩ :=
    (h.coherent.afterAll _).chain_stands stands fresh' distinct
  refine ⟨?_, fun lower upper split v => ?_⟩
  · rw [outcomes_append]
    exact List.forall_mem_append.2 ⟨effective, effective'⟩
  · obtain ⟨registry, r, published, lone, params, guards, -, adds, -⟩ := chain lower upper split
    rw [← afterAll_append] at published adds
    have coherent : (w.afterAll commands).Coherent := h.coherent.afterAll commands
    have each : ∀ depth, 2 * Layer.overriding lower < depth →
        p.callWithin depth (Layer.top ground lower) f [.int v] =
          .ok (.int (v + Layer.total lower)) := by
      intro depth enough
      rw [Program.callWithin, coherent.invoke_published published lone.get?_eq params guards,
        coherent.eval_adds adds (Table.get?_insert_self _ (by simp) _) (by omega), Int.zero_add]
    have answers : p.Answers (Layer.top ground lower) f [.int v]
        (.ok (.int (v + Layer.total lower))) :=
      ⟨by simp, _, each _ (Nat.lt_succ_self _)⟩
    exact ⟨answers, each, each Program.depthLimit⟩

/-- A chain of three extensions, of which the second declares nothing. -/
def threeLayers : List Layer :=
  [⟨"second", {}, some 30⟩, ⟨"third", {}, none⟩, ⟨"fourth", {}, some (-20)⟩]

/-- All four units answer with what is added up to them. -/
theorem layers_add_four :
    let p := (afterAll ∅ (groundCommands {} "first" "f" "x" ++
      chainCommands "f" "x" "first" threeLayers)).program
    p.call "first" "f" [.int 50] = .ok (.int 50) ∧ p.call "second" "f" [.int 50] = .ok (.int 80) ∧
      p.call "third" "f" [.int 50] = .ok (.int 80) ∧
      p.call "fourth" "f" [.int 50] = .ok (.int 60) := by
  intro p
  obtain ⟨-, answers⟩ := Reachable.empty.layers_add {} "first" "f" "x" threeLayers
    (fun _ _ => rfl) (by decide)
  exact ⟨(answers [] _ rfl 50).2.2 (by decide), (answers [_] _ rfl 50).2.2 (by decide),
    (answers [_, _] _ rfl 50).2.2 (by decide), (answers [_, _, _] [] rfl 50).2.2 (by decide)⟩

end Workspace

end Heredity
