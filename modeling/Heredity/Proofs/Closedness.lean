import Mathlib
import Heredity.Proofs.Naming
import Heredity.Proofs.Normalization
import Heredity.Proofs.Permissions
import Heredity.Proofs.Scoping

/-!
# Closed declarations

If the author of a unit uses only variables that the parameters bind, so do all routines that are
made of the declarations: those for fewer arguments, the copies in extensions, and the routines that
forward to a base.  No call then ever meets a variable without a value.

* `Declaration.Scoped` — a declaration is closed.
* `scopedAt_of_mem_expandDefaults`, `scopedAt_of_inheritRoutine` — what becomes of its routines.
* `Moves.scoped` — an event keeps a unit closed if what it puts into it is.
* `Session.accepted`, `Command.accepted`, `Workspace.acceptedAll` — the declarations that come into
  effect, whether a unit or a hook of its base makes them.
* `Coherent.scoped_after` — one command keeps a workspace closed if it accepts closed declarations
  only.
* `afterAll_bound` — no call in a program meets an unbound variable, if all accepted declarations
  are closed.

**What is accepted.**  A declaration is accepted as soon as one of its routines is, even if it fails
at the next one or is a statement of a hook that fails later: its routine stays in the program.  A
declaration that is refused, or inert, may use any variables.
-/

namespace Heredity

open Step (exec)
open Step (Logs historyEach logEach)

/-! ## What becomes of a declaration -/

namespace Tree

variable {params guards args : List Tree} {body : Tree} {name stem : String}

/-- Parameters bind what they bind without names. -/
theorem Naming.binds_subset {taken : List String} {named : List Named}
    (naming : Naming taken params named) :
    params.flatMap binds ⊆ (named.map Named.pattern).flatMap binds := by
  induction naming with
  | nil => exact List.Subset.refl _
  | own _ rest ih =>
    rw [List.flatMap_cons, List.map_cons, List.flatMap_cons, binds_required]
    exact List.append_subset.2
      ⟨List.subset_append_left _ _, List.subset_append_of_subset_right _ ih⟩
  | @synthetic _ param _ name _ _ _ rest ih =>
    rw [List.flatMap_cons, List.map_cons, List.flatMap_cons, ← binds_required param]
    exact List.append_subset.2
      ⟨List.subset_append_of_subset_left _ (binds_subset_withName name _),
        List.subset_append_of_subset_right _ ih⟩

theorem binds_subset_normalize (params guards : List Tree) (stem : String) :
    params.flatMap binds ⊆ (normalize params guards stem).flatMap binds :=
  (naming_nameFrom _ _ _ _).binds_subset

/-- The variables that pass arguments on are bound by the normalized parameters. -/
theorem references_forward {t : Tree} (h : t ∈ forward params guards stem) :
    references t ⊆ (normalize params guards stem).flatMap binds := by
  obtain ⟨entry, listed, rfl⟩ := List.mem_map.1 h
  have naming : Naming (takenNames params guards) params (nameParameters params guards stem) :=
    naming_nameFrom _ _ _ _
  intro x member
  obtain rfl := List.mem_singleton.1 member
  exact List.mem_flatMap.2
    ⟨entry.pattern, List.mem_map_of_mem listed, mem_binds_of_ownName (naming.isNamed listed)⟩

/-- The variables of a call are those of its arguments. -/
theorem references_call (name : String) (args : List Tree) :
    references (.call name args) = args.flatMap references := references_eq _

theorem references_remoteCall (unit name : String) (args : List Tree) :
    references (.remoteCall unit name args) = args.flatMap references := references_eq _

/-- Parameters without a fallback value are always supplied. -/
theorem mem_suppliedParams_of_required (supplied : Nat) {param : Tree} (isParam : param ∈ params)
    (isRequired : param.fallback?.isNone = true) : param ∈ suppliedParams supplied params := by
  induction params generalizing supplied with
  | nil => cases isParam
  | cons first params ih =>
    rcases optional_or_required first with ⟨pattern, value, rfl⟩ | ⟨given, -, -, -, -⟩
    · rcases List.mem_cons.1 isParam with rfl | later
      · cases isRequired
      · cases supplied with
        | zero => exact ih 0 later
        | succ supplied => exact List.mem_cons_of_mem _ (ih supplied later)
    · rw [given]
      exact (List.mem_cons.1 isParam).elim (fun same => same ▸ List.mem_cons_self)
        fun later => List.mem_cons_of_mem _ (ih supplied later)

end Tree

/-- A declaration is closed. -/
structure Declaration.Scoped (declaration : Declaration) : Prop where
  /-- The variables of body and guards are bound by the parameters. -/
  written : ∀ t ∈ declaration.body :: declaration.guards,
    t.references ⊆ declaration.params.flatMap Tree.binds
  /-- Those of a fallback value are bound by the parameters that have none. -/
  fallbacks : ∀ value ∈ declaration.params.filterMap Tree.fallback?,
    value.references ⊆
      (declaration.params.filter fun param => param.fallback?.isNone).flatMap Tree.binds

instance (declaration : Declaration) : Decidable declaration.Scoped :=
  decidable_of_iff
    ((∀ t ∈ declaration.body :: declaration.guards,
        ∀ x ∈ t.references, x ∈ declaration.params.flatMap Tree.binds) ∧
      ∀ value ∈ declaration.params.filterMap Tree.fallback?, ∀ x ∈ value.references,
        x ∈ (declaration.params.filter fun param : Tree => param.fallback?.isNone).flatMap
          Tree.binds)
    ⟨fun h => ⟨h.1, h.2⟩, fun h => ⟨h.written, h.fallbacks⟩⟩

/-- An emission is in scope at its key. -/
def Emission.Scoped (e : Emission) : Prop := Tree.ScopedAt e.key e.params e.guards e.body

namespace Declaration.Scoped

variable {declaration : Declaration}

/-- **A shorter routine** uses what its parameters bind: the arguments that it passes on, and in the
fallback values what the required parameters bind. -/
theorem shorter (h : declaration.Scoped) (stem : String) (supplied : Nat) :
    (Tree.shorterVariant declaration.name declaration.params stem supplied).body.references ⊆
      (Tree.shorterVariant declaration.name declaration.params stem supplied).params.flatMap
        Tree.binds := by
  intro x used
  have used : x ∈ (Tree.call declaration.name _).references := used
  rw [Tree.references_call] at used
  obtain ⟨arg, isArg, used⟩ := List.mem_flatMap.1 used
  rcases Tree.mem_filledArgs 0 isArg with isForwarded | ⟨i, isOmitted⟩
  · exact Tree.references_forward isForwarded used
  · obtain ⟨pattern, isParam⟩ := Tree.exists_optional_of_omitted isOmitted
    have isFallback : arg ∈ declaration.params.filterMap Tree.fallback? :=
      List.mem_filterMap.2 ⟨_, isParam, rfl⟩
    obtain ⟨param, required, bound⟩ := List.mem_flatMap.1 (h.fallbacks arg isFallback used)
    obtain ⟨isParam, isRequired⟩ := List.mem_filter.1 required
    exact Tree.binds_subset_normalize _ _ _ (List.mem_flatMap.2
      ⟨param, Tree.mem_suppliedParams_of_required supplied isParam isRequired, bound⟩)

/-- **The routines of a closed declaration** are in scope.  Its body and guards may have been
prepared, which keeps their variables. -/
theorem scopedAt_of_mem_expandDefaults (h : declaration.Scoped) {d : Draft} {stem : String}
    {v : Tree.Variant} (member : v ∈ Tree.expandDefaults declaration.name declaration.params
      (declaration.guards.map (Session.prepared d declaration.name))
      (Session.prepared d declaration.name declaration.body) stem) :
    (Session.variantEmission declaration v).Scoped where
  arity := congrArg Int.ofNat (Tree.length_params_of_mem_expandDefaults member).symm
  bound := by
    rcases List.mem_append.1 member with short | full
    · obtain ⟨supplied, -, rfl⟩ := List.mem_map.1 short
      intro t isBody
      obtain rfl := List.mem_singleton.1 isBody
      exact h.shorter stem supplied
    · obtain rfl := List.mem_singleton.1 full
      intro t isWritten
      have same : (declaration.params.map Tree.required).flatMap Tree.binds =
          declaration.params.flatMap Tree.binds := by
        rw [List.flatMap_map]
        exact List.flatMap_congr fun param _ => Tree.binds_required param
      have isPrepared : t ∈ (declaration.body :: declaration.guards).map
        (Session.prepared d declaration.name) := isWritten
      obtain ⟨expr, isExpr, rfl⟩ := List.mem_map.1 isPrepared
      rw [Tree.references_prepared]
      show _ ⊆ (declaration.params.map Tree.required).flatMap Tree.binds
      rw [same]
      exact h.written expr isExpr

end Declaration.Scoped

/-! ## What becomes of an inherited routine -/

section Inheritance

variable {config : Config} {base : Registry} {key : Key} {r r' : RoutineRecord}
  {needs : List String}

/-- **Inherited routines** stay in scope, copied or delegated. -/
theorem scopedAt_of_inheritRoutine (h : inheritRoutine config base key r = .ok (r', needs))
    (inScope : Tree.ScopedAt key r.params r.guards r.body) :
    Tree.ScopedAt key r'.params r'.guards r'.body := by
  have params := (inheritRoutine_keeps h).2
  refine ⟨?_, fun t member => ?_⟩
  · rw [params, Tree.length_normalize]
    exact inScope.arity
  rw [params]
  have kept : ∀ t ∈ r.body :: r.guards,
      t.references ⊆ (Tree.normalize r.params r.guards config.stem).flatMap Tree.binds :=
    fun t member => List.Subset.trans (inScope.bound t member) (Tree.binds_subset_normalize _ _ _)
  rcases inheritRoutine_eq_ok h with rfl | ⟨-, rfl⟩
  · rcases List.mem_cons.1 member with rfl | isGuard
    · intro x used
      have used : x ∈ (Tree.remoteCall base.unit key.name _).references := used
      rw [Tree.references_remoteCall] at used
      obtain ⟨arg, isArg, used⟩ := List.mem_flatMap.1 used
      exact Tree.references_forward isArg used
    · exact kept t (List.mem_cons_of_mem _ (List.mem_filter.1 isGuard).1)
  · have isQualified : t ∈ (r.body :: r.guards).map (Tree.qualified base.imports) := member
    obtain ⟨written, isWritten, rfl⟩ := List.mem_map.1 isQualified
    rw [Tree.references_qualified]
    exact kept written isWritten

end Inheritance

/-! ## Events -/

/-- All records of a draft are in scope. -/
def Draft.Scoped (d : Draft) : Prop :=
  ∀ key r, d.routines.get? key = some r → Tree.ScopedAt key r.params r.guards r.body

/-- All records and all routines in the image of a unit are in scope. -/
structure Writing.Scoped (w : Writing) : Prop where
  /-- The records. -/
  draft : w.draft.Scoped
  /-- The routines in the image. -/
  image : w.image.Scoped

/-- What an event puts into a unit is in scope.  An inert declaration puts nothing into it. -/
def Event.Scoped : Event → Prop
  | .declare e _ admission => admission ≠ .inert → e.Scoped
  | .inherit e => e.Scoped
  | _ => True

theorem Image.Scoped.insert {image image' : Image} {e : Emission} (h : image.Scoped)
    (new : e.Scoped) (same : image'.routines = image.routines.insert e.key e) :
    image'.Scoped := by
  intro key e' stored
  rw [same] at stored
  have entry : ∀ key', (e.key == key') = true → Tree.ScopedAt key' e.params e.guards e.body :=
    fun _ agrees => Tree.ScopedAt.agree new agrees
  exact Table.forall_insert_of_agree h entry key e' stored

theorem Draft.Scoped.insert {d d' : Draft} {key : Key} {r : RoutineRecord} (h : d.Scoped)
    (new : Tree.ScopedAt key r.params r.guards r.body)
    (same : d'.routines = d.routines.insert key r) : d'.Scoped := by
  intro key' r' recorded
  rw [same] at recorded
  have entry : ∀ key', (key == key') = true → Tree.ScopedAt key' r.params r.guards r.body :=
    fun _ agrees => new.agree agrees
  exact Table.forall_insert_of_agree h entry key' r' recorded

/-- **One event** keeps a unit in scope if what it puts into it is. -/
theorem Moves.scoped {w w' : Writing} {event : Event} (move : Moves w event w') (h : w.Scoped)
    (new : event.Scoped) : w'.Scoped := by
  obtain ⟨draft, image⟩ := h
  cases move with
  | declarePrivate => exact ⟨draft, image.insert (new nofun) rfl⟩
  | declareLocal => exact ⟨draft, image.insert (new nofun) rfl⟩
  | declareRecorded made isPublic writable notPrivate passedOn admitted =>
    have new := new (by
      rintro rfl
      exact Bool.false_ne_true admitted.isRecorded)
    exact ⟨draft.insert (r := Emission.record _) new rfl, image.insert new rfl⟩
  | @grant key r writable recorded =>
    have permitted : Tree.ScopedAt key r.params r.guards r.body := draft key r recorded
    exact ⟨draft.insert (r := { r with permitted := true }) permitted rfl, image⟩
  | withhold =>
    refine ⟨fun key r recorded => ?_, image⟩
    rw [Writing.draft_withDraft, Table.get?_erase] at recorded
    split at recorded
    · cases recorded
    · exact draft key r recorded
  | inherit => exact ⟨draft, image.insert new rfl⟩
  | declareInert | importKey | setHooks | require | skip | close | complete => exact ⟨draft, image⟩

/-- **Events one after the other.** -/
theorem Trace.scoped {w w' : Writing} {events : List Event} (trace : Trace w events w')
    (h : w.Scoped) (new : ∀ event ∈ events, event.Scoped) : w'.Scoped :=
  trace.invariant (I := Writing.Scoped)
    (fun _ event _ member move inScope => move.scoped inScope (new event member)) h

/-! ## Accepted declarations -/

/-- Declarations stand for events if these put routines in scope into a unit whenever the
declarations are closed. -/
def Declaration.reading : Reading Declaration where
  reads events log := (∀ d ∈ log, d.Scoped) → ∀ event ∈ events, event.Scoped
  nil := fun _ _ none => nomatch none
  append := fun read read' closed event member =>
    (List.mem_append.1 member).elim
      (read (fun d isIn => closed d (List.mem_append_left _ isIn)) event)
      (read' (fun d isIn => closed d (List.mem_append_right _ isIn)) event)

namespace Session

/-- A declaration is accepted if one of its routines comes into effect. -/
def accepted (store : Store) (declaration : Declaration) (spliced : Bool) (b : Bench) :
    List Declaration :=
  if (defineHistory store declaration spliced b).any fun t => t.admission != .inert then
    [declaration]
  else []

/-- The declarations that a statement makes and that are accepted. -/
def statementAccepted (store : Store) (spliced : Bool) : Statement → Bench → List Declaration
  | .define declaration => accepted store declaration spliced
  | _ => fun _ => []

/-- The declarations in hooks that are accepted. -/
def spliceAccepted (store : Store) (hooks : List Hook) : Bench → List Declaration :=
  logEach (fun hook : Hook => hook.forM (run store true))
    (fun hook => logEach (run store true) (statementAccepted store true) hook) hooks

/-- The declarations in the hooks around what is inherited that are accepted. -/
def materializeAccepted (store : Store) (emissions : EmissionList) (b : Bench) :
    List Declaration :=
  spliceAccepted store emissions.preHooks b ++
    match exec (splice store emissions.preHooks) b with
    | (.ok _, b') =>
      spliceAccepted store emissions.postHooks (exec (putInPlace emissions) b').2
    | (.error _, _) => []

/-- What a closed declaration treats is in scope. -/
theorem scoped_of_mem_defineHistory {store : Store} {declaration : Declaration} {spliced : Bool}
    {b : Bench} (closed : declaration.Scoped) {t : Treatment}
    (member : t ∈ defineHistory store declaration spliced b) : t.emission.Scoped := by
  unfold defineHistory at member
  split at member
  · next body guards units prepared =>
    obtain ⟨rfl, rfl, -⟩ := prepareAll_eq_ok prepared
    obtain ⟨v, isVariant, same⟩ := List.mem_map.1
      ((historyEach_sublist declaration units spliced _ b).subset (List.mem_map_of_mem member))
    rw [← same]
    exact closed.scopedAt_of_mem_expandDefaults isVariant
  · cases member

/-- **Declarations.** -/
theorem define_accepts (store : Store) (declaration : Declaration) (spliced : Bool) :
    Logs Declaration.reading (define store declaration spliced)
      (accepted store declaration spliced) := by
  intro b loaded
  obtain ⟨events, runs, accounts⟩ := define_recounts store declaration spliced b loaded
  refine ⟨events, runs, fun closed event member => ?_⟩
  cases event with
  | declare e units admission =>
    intro effective
    have treated : ⟨e, units, admission⟩ ∈ defineHistory store declaration spliced b := by
      rw [← accounts.treated]
      exact List.mem_filterMap.2 ⟨_, member, rfl⟩
    have takesEffect : ((defineHistory store declaration spliced b).any
        fun t => t.admission != .inert) = true :=
      List.any_eq_true.2 ⟨_, treated, bne_iff_ne.2 effective⟩
    have isAccepted : declaration ∈ accepted store declaration spliced b := by
      rw [accepted, if_pos takesEffect]
      exact List.mem_singleton_self _
    exact scoped_of_mem_defineHistory (closed declaration isAccepted) treated
  | inherit e => cases accounts.own _ member
  | _ => trivial

/-- What puts no routine into a unit accepts nothing. -/
theorem accepts_nothing {α : Type} {m : Step Bench α} {P : Event → Prop}
    (performs : Step.Performs P m) (silent : ∀ event, P event → event.Scoped) :
    Logs Declaration.reading m fun _ => [] :=
  .of_performs performs fun _ all _ event member => silent event (all event member)

theorem grant_accepts (key : Key) : Logs Declaration.reading (grant key) fun _ => [] :=
  accepts_nothing (grant_performs key) fun _ same => same ▸ trivial

theorem withhold_accepts (key : Key) : Logs Declaration.reading (withhold key) fun _ => [] :=
  accepts_nothing (withhold_performs key) fun _ same => same ▸ trivial

/-- **Statements.** -/
theorem run_accepts (store : Store) (spliced : Bool) (statement : Statement) :
    Logs Declaration.reading (run store spliced statement)
      (statementAccepted store spliced statement) := by
  cases statement with
  | define declaration =>
    refine (define_accepts store declaration spliced).bind_silent fun admissions => ?_
    split
    · exact accepts_nothing (grantRecorded_performs _ _ admissions)
        fun _ ⟨_, same⟩ => same ▸ trivial
    · exact .pure _
  | grant key => exact grant_accepts key
  | withhold key => exact withhold_accepts key

/-- **Hooks.** -/
theorem splice_accepts (store : Store) (hooks : List Hook) :
    Logs Declaration.reading (splice store hooks) (spliceAccepted store hooks) :=
  .forM fun _ _ => .forM fun statement _ => run_accepts store true statement

/-- **What is inherited** is put in place between the hooks. -/
theorem materialize_accepts (store : Store) {emissions : EmissionList}
    (inherited : ∀ e ∈ emissions.routines, e.Scoped) :
    Logs Declaration.reading (materialize store emissions)
      (materializeAccepted store emissions) := by
  intro b loaded
  obtain ⟨pre, runs, read⟩ := splice_accepts store emissions.preHooks b loaded
  rw [exec_materialize]
  unfold materializeAccepted
  cases first : exec (splice store emissions.preHooks) b with
  | mk result b₁ =>
    replace runs : b.Runs pre b₁ := by rwa [first] at runs
    cases result with
    | error error =>
      rw [Step.exec_bind_of_error first]
      exact ⟨pre, runs, by rwa [List.append_nil]⟩
    | ok _ =>
      obtain ⟨b₂, put, runs₂⟩ := putInPlace_runs runs.loaded emissions
      obtain ⟨post, runs₃, read'⟩ := splice_accepts store emissions.postHooks b₂ runs₂.loaded
      rw [Step.exec_bind_of_ok first, Step.exec_bind_of_ok put]
      dsimp only
      rw [put]
      have inherits : Declaration.reading.reads
          (emissions.routines.map .inherit ++ [.require emissions.requires]) [] := by
        intro _ event member
        rcases List.mem_append.1 member with isInherited | isRequired
        · obtain ⟨e, listed, rfl⟩ := List.mem_map.1 isInherited
          exact inherited e listed
        · obtain rfl := List.mem_singleton.1 isRequired
          trivial
      exact ⟨_, runs.trans (runs₂.trans runs₃),
        Declaration.reading.append read (Declaration.reading.append inherits read')⟩

end Session

/-- The declarations that a command makes a session accept. -/
def Command.accepted (store : Store) : Command → Bench → List Declaration
  | .define _ declaration => Session.accepted store declaration false
  | .run _ statement spliced => Session.statementAccepted store spliced statement
  | _ => fun _ => []

/-- What a session works at accepts the declarations of the command. -/
theorem Command.work?_accepts {command : Command} {store : Store} {m : Step Bench Reply}
    (h : command.work? store = some m) :
    Logs Declaration.reading m (command.accepted store) := by
  cases command with
  | openRoot | openExtension | finish => cases h
  | define unit declaration =>
    cases h
    exact (Session.define_accepts store declaration false).bind_silent fun _ => .pure _
  | grant unit key =>
    cases h
    exact (Session.grant_accepts key).bind_silent fun _ => .pure _
  | withhold unit key =>
    cases h
    exact (Session.withhold_accepts key).bind_silent fun _ => .pure _
  | importRoutines unit source keys =>
    cases h
    have performs := Session.importRoutines_performs store source keys
    refine (Session.accepts_nothing performs ?_).bind_silent fun _ => .pure _
    rintro _ ⟨_, _, rfl⟩
    trivial
  | setHooks unit pre post =>
    cases h
    refine (Session.accepts_nothing (Session.setHooks_performs pre post) ?_).bind_silent
      fun _ => .pure _
    rintro _ rfl
    trivial
  | run unit statement spliced =>
    cases h
    exact (Session.run_accepts store spliced statement).bind_silent fun _ => .pure _

theorem Command.keeps_accepted : Command.Keeps Declaration.reading Command.accepted where
  works := Command.work?_accepts
  idle {store command} silent b := by cases command <;> first | rfl | cases silent
  closing := by simp [Declaration.reading, Event.Scoped]
  completing := by simp [Declaration.reading, Event.Scoped]

namespace Workspace

/-- The declarations that are accepted when a unit is opened, which happens once. -/
def acceptedOnOpening (w : Workspace) (command : Command) : List Declaration :=
  if w.program.contains command.unit then []
  else
    match w.opening? command with
    | some o => Session.materializeAccepted o.store o.emissions o.bench
    | none => []

/-- The declarations that are accepted when a command is executed. -/
def accepted (w : Workspace) (command : Command) : List Declaration :=
  w.logOf Command.accepted command.unit command ++ w.acceptedOnOpening command

/-- The declarations that are accepted when commands are executed, one after the other. -/
def acceptedAll : Workspace → List Command → List Declaration
  | _, [] => []
  | w, command :: commands => w.accepted command ++ acceptedAll (w.after command) commands

/-- All that is written in a workspace is in scope. -/
structure Scoped (w : Workspace) : Prop where
  /-- The drafts of its sessions. -/
  draft : ∀ {unit s}, w.sessions.get? unit = some s → s.draft.Scoped
  /-- The images in its program. -/
  program : w.program.Scoped

end Workspace

/-! ## Commands -/

/-- **What an extension starts with,** and what it inherits, is in scope if its base is. -/
theorem scoped_of_resolve {config : Config} {d : Draft} {fields : Value} {unit : String}
    {resolution : Resolution} (h : resolve d.toRegistry fields unit config = .ok resolution)
    (base : d.Scoped) :
    (Writing.opened config resolution.draft).Scoped ∧
      ∀ e ∈ resolution.emissions.routines, e.Scoped := by
  have records : resolution.draft.Scoped := by
    intro key r' recorded
    obtain ⟨r, needs, original, -, becomes⟩ := (get?_inherited_iff h).1 recorded
    exact scopedAt_of_inheritRoutine becomes (base key r original)
  refine ⟨⟨records, fun _ _ none => nomatch none⟩, fun e inherited => ?_⟩
  rw [emissions_eq h] at inherited
  obtain ⟨⟨key, r⟩, stored, rfl⟩ := List.mem_map.1 inherited
  exact records key r (Table.get?_eq_some_iff.2 ⟨key, stored, BEq.rfl⟩)

namespace Workspace

variable {w : Workspace} {command : Command}

/-- A command writes its own unit only. -/
theorem Coherent.scoped_of_unit (h : w.Coherent) (inScope : w.Scoped)
    (draft : ∀ s, (w.after command).sessions.get? command.unit = some s → s.draft.Scoped)
    (image : ∀ image, (w.after command).program.units.get? command.unit = some image →
      image.Scoped) : (w.after command).Scoped where
  draft := by
    intro unit s session
    by_cases other : unit = command.unit
    · exact draft s (other ▸ session)
    · rw [h.sessions_elsewhere_after other] at session
      exact inScope.draft session
  program := by
    intro unit held isHeld
    by_cases other : unit = command.unit
    · exact image held (other ▸ isHeld)
    · rw [h.elsewhere_after other] at isHeld
      exact inScope.program unit held isHeld

/-- **A unit that has a session** stays in scope if closed declarations are accepted. -/
theorem Coherent.scoped_of_session (h : w.Coherent) (inScope : w.Scoped)
    (closed : ∀ d ∈ w.logOf Command.accepted command.unit command, d.Scoped) {s : Session}
    (session : w.sessions.get? command.unit = some s) : (w.after command).Scoped := by
  obtain ⟨-, image, held, -⟩ := h.session session
  obtain ⟨s', image', events, session', held', trace, read⟩ :=
    h.logs_after Command.keeps_accepted session held command
  have start : Writing.Scoped ⟨s, image⟩ :=
    ⟨inScope.draft session, inScope.program _ _ held⟩
  obtain ⟨draft, routines⟩ := trace.scoped start (read closed)
  refine h.scoped_of_unit inScope (fun s₁ session₁ => ?_) fun image₁ held₁ => ?_
  · cases session'.symm.trans session₁
    exact draft
  · cases held'.symm.trans held₁
    exact routines

/-- **A new extension** is in scope if the hooks of its base make closed declarations.  If a hook
fails, what is in the image by then stays there. -/
theorem Coherent.scoped_openExtension (h : w.Coherent) (inScope : w.Scoped) {config : Config}
    {unit base : String} {fields : Value}
    (closed : ∀ d ∈ w.acceptedOnOpening (.openExtension config unit base fields), d.Scoped) :
    (w.after (.openExtension config unit base fields)).Scoped := by
  have after : w.after (.openExtension config unit base fields) =
      (exec (opening unit (Site.openExtension config unit base fields)) w).2 := rfl
  rw [exec_opening] at after
  rcases Site.exec_openExtension_cases w.toSite config unit base fields with
    ⟨error, failed, -⟩ | ⟨registry, resolution, result, b, published, resolved, fresh, put, opened⟩
  · rw [failed] at after
    rw [after]
    exact inScope
  obtain ⟨s, session, -, rfl⟩ := h.published published
  obtain ⟨start, inherited⟩ := scoped_of_resolve resolved (inScope.draft session)
  have isUnit := (draft_of_resolve resolved).1
  have accepted : w.acceptedOnOpening (.openExtension config unit base fields) =
      Session.materializeAccepted w.store resolution.emissions
        (w.toSite.openingBench config resolution.draft) := by
    rw [acceptedOnOpening, opening?, published, Option.bind_eq_bind, Option.bind_some, resolved]
    rw [isUnit] at fresh
    exact if_neg (by rw [Command.unit, fresh]; exact Bool.false_ne_true)
  rw [accepted] at closed
  -- What is put in place is in scope, whether a hook fails or not.
  have opening := w.toSite.openingBench_shows config resolution.draft
  obtain ⟨events, runs, read⟩ :=
    Session.materialize_accepts w.store inherited _ opening.loaded
  rw [put] at runs
  have named : b.unit = unit := runs.unit_eq.trans isUnit
  obtain ⟨w₀, ⟨s', image⟩, shown, ⟨rfl, held⟩, trace, -⟩ := runs
  obtain rfl := opening.unique shown
  obtain ⟨draft, routines⟩ := trace.scoped start (read closed)
  rw [named] at held
  rw [opened] at after
  refine h.scoped_of_unit inScope (fun s₁ session₁ => ?_) fun image₁ held₁ => ?_
  · rw [after] at session₁
    cases result with
    | error error => exact inScope.draft session₁
    | ok _ =>
      change (w.sessions.insert unit b.session).get? unit = some s₁ at session₁
      rw [get?_sessions_insert, if_pos rfl] at session₁
      cases session₁
      exact draft
  · have left : (w.after (.openExtension config unit base fields)).program = b.program := by
      rw [after]
      cases result <;> rfl
    rw [left] at held₁
    cases held.symm.trans held₁
    exact routines

theorem Coherent.scoped_openRoot (h : w.Coherent) (inScope : w.Scoped) (config : Config)
    (unit : String) (fields : Value) : (w.after (.openRoot config unit fields)).Scoped := by
  have after : w.after (.openRoot config unit fields) =
      (exec (opening unit (Site.openRoot config unit fields)) w).2 := rfl
  rw [exec_opening] at after
  rcases Site.exec_openRoot_cases w.toSite config unit fields with
    ⟨error, failed, -⟩ | ⟨merged, -, opened⟩
  · rw [failed] at after
    rw [after]
    exact inScope
  rw [opened] at after
  refine h.scoped_of_unit inScope (fun s session => ?_) fun image held => ?_
  · rw [after] at session
    change (w.sessions.insert unit _).get? unit = some s at session
    rw [get?_sessions_insert, if_pos rfl] at session
    cases session
    exact fun _ _ none => nomatch none
  · rw [after] at held
    change (w.program.setImage unit _).units.get? unit = some image at held
    rw [Program.get?_setImage, if_pos rfl] at held
    cases held
    exact fun _ _ none => nomatch none

/-- **One command** keeps a workspace in scope if all declarations that it accepts are closed. -/
theorem Coherent.scoped_after (h : w.Coherent) (inScope : w.Scoped)
    (closed : ∀ d ∈ w.accepted command, d.Scoped) : (w.after command).Scoped := by
  obtain ⟨closed, closedOnOpening⟩ := List.forall_mem_append.1 closed
  cases session : w.sessions.get? command.unit with
  | some s => exact h.scoped_of_session inScope closed session
  | none =>
    have idle : ∀ {m}, command.work? w.store = some m → (w.after command).Scoped := by
      intro m isWork
      have performed := exec_perform_of_work isWork
      rw [session] at performed
      have same : w.after command = w := congrArg Prod.snd performed
      exact same.symm ▸ inScope
    cases command with
    | openRoot config unit fields => exact h.scoped_openRoot inScope config unit fields
    | openExtension => exact h.scoped_openExtension inScope closedOnOpening
    | finish unit =>
      have same : w.after (.finish unit) = w := congrArg Prod.snd (exec_finish_of_missing session)
      exact same.symm ▸ inScope
    | define | grant | withhold | importRoutines | setHooks | run => exact idle rfl

/-- **Any commands** do. -/
theorem Coherent.scoped_afterAll (h : w.Coherent) (inScope : w.Scoped) {commands : List Command}
    (closed : ∀ d ∈ w.acceptedAll commands, d.Scoped) : (w.afterAll commands).Scoped := by
  induction commands generalizing w with
  | nil => exact inScope
  | cons command commands ih =>
    obtain ⟨first, rest⟩ := List.forall_mem_append.1 closed
    exact ih (h.after command) (h.scoped_after inScope first) rest

theorem scoped_empty : (∅ : Workspace).Scoped where
  draft none := nomatch none
  program _ _ none := nomatch none

/-- **Closed declarations never meet an unbound variable.**  Let commands, failing ones included,
lead to a workspace, and let every declaration that was accepted on the way be closed, whether a
unit or a hook of its base made it.  Then no call of any routine of any unit, with any arguments and
on behalf of anyone, fails for want of the value of a variable, in the routine itself or in what it
calls, however deep. -/
theorem afterAll_bound (commands : List Command)
    (closed : ∀ d ∈ acceptedAll ∅ commands, d.Scoped) (depth : Nat) (unit name : String)
    (args : List Value) (caller : Option String) (x place : String) :
    Program.invokeWith ((afterAll ∅ commands).program.eval depth) (afterAll ∅ commands).program
      unit name args caller ≠ .error (.unboundVariable x place) := by
  have inScope := (Reachable.empty.coherent.scoped_afterAll scoped_empty closed).program
  have bound := inScope.invokeWith_bound (inScope.eval_bound depth) unit name args caller
  intro failed
  rw [failed] at bound
  exact Bool.false_ne_true (bound _ rfl).symm

/-- A private routine, and one that calls it for the value of an optional parameter. -/
def closedBase : List Declaration :=
  [⟨"secret", [.binding "x"], .list [.var "x"], [], true, false⟩,
    ⟨"pair", [.binding "x", .optional (.binding "y") (.call "secret" [.var "x"])],
      .tuple [.var "x", .var "y"], [.primitive "==" [.var "x", .var "x"]], false, false⟩,
    ⟨"show", [.tuplePattern [.wildcard "_", .binding "z"]], .var "z", [], false, true⟩]

/-- What the hook of the base makes every extension declare. -/
def closedHook : Declaration :=
  ⟨"hooked", [.alias (.wildcard "_") "x"], .call "show" [.call "pair" [.var "x"]], [], false, false⟩

/-- What an extension puts in the place of a routine of the base. -/
def closedReplacement : Declaration :=
  ⟨"show", [.binding "p"], .list [.superCall [.var "p"]], [], false, false⟩

/-- A base with a hook, an extension of it, and an extension of that.  A declaration that is not
permitted uses a variable that nothing binds. -/
def closedCommands : List Command :=
  [.openRoot {} "base" (.list []), .setHooks "base" none (some [.define closedHook])] ++
    closedBase.map (fun d => .run "base" (.define d) false) ++
    [.finish "base", .openExtension {} "child" "base" (.list []),
      .define "child" closedReplacement,
      .define "child" ⟨"pair", [.binding "x"], .var "y", [], false, false⟩, .finish "child",
      .openExtension {} "grandchild" "child" (.list []), .finish "grandchild"]

theorem afterAll_bound_closed :
    acceptedAll ∅ closedCommands = closedBase ++ [closedHook, closedReplacement] ∧
      (afterAll ∅ closedCommands).program.call "grandchild" "hooked" [.int 7] =
        .ok (.list [.list [.int 7]]) ∧
      ∀ unit name args x place,
        (afterAll ∅ closedCommands).program.call unit name args ≠
          .error (.unboundVariable x place) := by
  have evaluated : acceptedAll ∅ closedCommands =
        closedBase ++ [closedHook, closedReplacement] ∧
      (afterAll ∅ closedCommands).program.call "grandchild" "hooked" [.int 7] =
        .ok (.list [.list [.int 7]]) := by
    cbv
    exact ⟨rfl, trivial⟩
  have closed : ∀ d ∈ acceptedAll ∅ closedCommands, d.Scoped := by
    rw [evaluated.1]
    decide
  exact ⟨evaluated.1, evaluated.2, fun unit name args x place =>
    afterAll_bound closedCommands closed Program.depthLimit unit name args none x place⟩

end Workspace

end Heredity
