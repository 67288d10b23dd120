import Mathlib
import Heredity.Evaluation
import Heredity.Proofs.Preparation
import Heredity.Proofs.Workspaces

/-!
# What a declaration records

A declaration with optional parameters makes one routine for each number of them that is supplied.
The full routine has the prepared body and guards.  A shorter one calls the next, and passes the
*fallback values* of the parameters that are left out — as they were written.

* `Writing.Declared` — a routine is in the image, and its record in the draft, if there is one.
* `Tree.omitted` — the fallback values that a shorter routine passes, with their positions.
* `Emission.Prepared` — nothing in a routine refers to the base, and what was a bare call of an
  imported routine is a call of its source.
* `Tree.Explicit` — an expression needs no preparation.
* `define_prepares` — a routine is prepared exactly if the fallback values that it passes are
  explicit, and the draft depends on all units that it names exactly if it depends on those that the
  fallback values name.

**Addresses, not counts.**  That a bare call *became* a qualified one compares the call that was
written with the call at the same address of what is recorded.  So `Declaration.written` lists what
the author wrote with the places at which it ends up.
-/

namespace Heredity

open Step (exec)

/-! ## What declarations leave behind -/

namespace Writing

/-- A declared routine is in the image, and if it is recorded, the record is in the draft and the
draft depends on the units of the declaration. -/
def Declared (e : Emission) (units : NameSet) (admission : Admission) (w : Writing) : Prop :=
  w.image.routines.get? e.key = some e ∧
    (admission.isRecorded = true → w.draft.routines.get? e.key = some e.record ∧
      ∀ u, units.contains u = true → u ≠ w.draft.unit → w.draft.dependencies.contains u = true)

variable {w w' : Writing} {e e' : Emission} {units units' : NameSet}
  {admission admission' : Admission}

/-- A variant that is not inert is declared. -/
theorem declared_of_moves (move : Moves w (.declare e units admission) w')
    (effective : admission ≠ .inert) : w'.Declared e units admission := by
  have stored : ∀ w : Writing, (w.hold e).image.routines.get? e.key = some e :=
    fun w => Table.get?_insert_self _ BEq.rfl e
  cases move with
  | declarePrivate | declareLocal => exact ⟨stored _, fun recorded => nomatch recorded⟩
  | declareInert => exact absurd rfl effective
  | declareRecorded =>
    refine ⟨stored _, fun _ => ⟨Table.get?_insert_self _ BEq.rfl _, fun u member other => ?_⟩⟩
    rw [draft_hold, draft_withDraft, Draft.recorded, OrderedSet.contains_addAll, Bool.or_eq_true]
    refine .inl (List.any_eq_true.2
      ⟨u, List.mem_filter.2 ⟨OrderedSet.mem_toList.2 member, ?_⟩, BEq.rfl⟩)
    exact bne_iff_ne.2 other

/-- It stays declared when variants at other keys are. -/
theorem Declared.declare (h : w.Declared e units admission)
    (move : Moves w (.declare e' units' admission') w') (other : ¬ (e'.key == e.key) = true) :
    w'.Declared e units admission := by
  obtain ⟨stored, recorded⟩ := h
  have kept : ∀ d : Draft, ((w.withDraft d).hold e').image.routines.get? e.key = some e := by
    intro d
    rw [routines_hold, Table.get?_insert, if_neg other, image_withDraft, stored]
  cases move with
  | declarePrivate => exact ⟨kept _, recorded⟩
  | declareLocal => exact ⟨kept w.draft, recorded⟩
  | declareInert => exact ⟨stored, recorded⟩
  | declareRecorded =>
    refine ⟨kept _, fun isRecorded => ⟨?_, fun u member unequal => ?_⟩⟩
    · rw [draft_hold, draft_withDraft, Draft.recorded, Table.get?_insert, if_neg other]
      exact (recorded isRecorded).1
    · rw [draft_hold, draft_withDraft, Draft.recorded, OrderedSet.contains_addAll, Bool.or_eq_true]
      exact .inr ((recorded isRecorded).2 u member unequal)

theorem Declared.declarations {declaration : Declaration} {variants : List Tree.Variant}
    {admissions : List Admission} (h : w.Declared e units admission)
    (trace : Trace w (Session.declarations declaration units' variants admissions) w')
    (others : ∀ v ∈ variants, ¬ (Key.ofCount declaration.name v.arity == e.key) = true) :
    w'.Declared e units admission := by
  induction variants generalizing w admissions with
  | nil =>
    cases trace
    exact h
  | cons v variants ih =>
    cases admissions with
    | nil =>
      cases trace
      exact h
    | cons a admissions =>
      cases trace with
      | cons first rest =>
        refine ih (h.declare first (others v List.mem_cons_self)) rest fun v' member => ?_
        exact others v' (List.mem_cons_of_mem v member)

/-- Requirements leave everything declared. -/
theorem Declared.requirement {others : NameSet} (h : w.Declared e units admission)
    (trace : Trace w (Session.requirement others) w') : w'.Declared e units admission := by
  unfold Session.requirement at trace
  split at trace
  · cases trace
    exact h
  · cases trace with
    | cons first rest =>
      cases rest
      cases first
      exact h

/-- **All variants** that are not inert are declared. -/
theorem declared_of_trace {declaration : Declaration} {variants : List Tree.Variant}
    {admissions : List Admission} (distinct : (variants.map Tree.Variant.arity).Nodup)
    (trace : Trace w (Session.declarations declaration units variants admissions) w') {i : Nat}
    {v : Tree.Variant} {a : Admission} (isVariant : variants[i]? = some v)
    (isAdmission : admissions[i]? = some a) (effective : a ≠ .inert) :
    w'.Declared (Session.variantEmission declaration v) units a := by
  induction variants generalizing w admissions i with
  | nil => cases isVariant
  | cons v₀ variants ih =>
    obtain ⟨fresh, distinct⟩ := List.nodup_cons.1 distinct
    cases admissions with
    | nil => cases isAdmission
    | cons a₀ admissions =>
      cases trace with
      | cons first rest =>
        cases i with
        | succ i => exact ih distinct rest isVariant isAdmission
        | zero =>
          cases isVariant
          cases isAdmission
          -- The variants that follow have other arities.
          refine (declared_of_moves first effective).declarations rest fun v' member agrees => ?_
          have arity : v'.arity = v.arity := Int.ofNat.inj (Key.beq_iff.1 agrees).2
          exact fresh (arity ▸ List.mem_map_of_mem member)

end Writing

namespace Tree

variable {name : String} {params guards : List Tree} {body : Tree} {stem : String}

/-- The variants of a declaration, by the number of optional parameters that are supplied. -/
theorem getElem?_expandDefaults (supplied : Nat) :
    (expandDefaults name params guards body stem)[supplied]? =
      if supplied < optionalCount params then some (shorterVariant name params stem supplied)
      else if supplied = optionalCount params then some (fullVariant params guards body)
      else none := by
  unfold expandDefaults
  rw [List.getElem?_append, List.length_map, List.length_range]
  split
  · next less => rw [List.getElem?_map, List.getElem?_range less]; rfl
  · next notLess =>
    split
    · next same => rw [same, Nat.sub_self]; rfl
    · next other => exact List.getElem?_eq_none (by simp; omega)

/-- The arity of a variant is the least one and the number of optional parameters supplied. -/
theorem arity_of_getElem? {v : Variant} {supplied : Nat}
    (h : (expandDefaults name params guards body stem)[supplied]? = some v) :
    v.arity = leastArity params + supplied := by
  rw [getElem?_expandDefaults] at h
  split at h
  · cases h
    rfl
  · split at h
    · next same =>
      cases h
      have bound := optionalCount_le_length params
      show params.length = params.length - optionalCount params + supplied
      omega
    · cases h

/-- The variants of a declaration have one arity after the other, the least first. -/
theorem arities_expandDefaults :
    (expandDefaults name params guards body stem).map Variant.arity =
      List.range' (leastArity params) (expandDefaults name params guards body stem).length := by
  refine List.ext_getElem (by simp) fun i _ inside => ?_
  rw [List.length_range'] at inside
  have found := List.getElem?_eq_getElem inside
  rw [List.getElem_map, List.getElem_range', arity_of_getElem? found, Nat.one_mul]

theorem nodup_arities :
    ((expandDefaults name params guards body stem).map Variant.arity).Nodup := by
  rw [arities_expandDefaults]
  exact List.nodup_range'

/-! ## Fallback values -/

/-- The fallback values of the optional parameters beyond the first `supplied`, each with the
position of its parameter. -/
def omitted : Nat → Nat → List Tree → List (Nat × Tree)
  | _, _, [] => []
  | position, supplied + 1, .optional _ _ :: params => omitted (position + 1) supplied params
  | position, 0, .optional _ value :: params =>
    (position, value) :: omitted (position + 1) 0 params
  | position, supplied, _ :: params => omitted (position + 1) supplied params

/-- A parameter is optional, or it is taken as it is. -/
theorem optional_or_required (param : Tree) :
    (∃ pattern value, param = .optional pattern value) ∨
      (∀ supplied params, suppliedParams supplied (param :: params) =
        param :: suppliedParams supplied params) ∧
      (∀ supplied params arg args, filledArgs supplied (param :: params) (arg :: args) =
        arg :: filledArgs supplied params args) ∧
      (∀ supplied params, filledArgs supplied (param :: params) [] = []) ∧
      (∀ position supplied params, omitted position supplied (param :: params) =
        omitted (position + 1) supplied params) ∧
      ∀ params, optionalCount (param :: params) = optionalCount params := by
  cases param with
  | optional pattern value => exact .inl ⟨pattern, value, rfl⟩
  | _ =>
    refine .inr ⟨fun supplied _ => ?_, fun supplied _ _ _ => ?_, fun supplied _ => ?_,
      fun _ supplied _ => ?_, fun _ => rfl⟩
    all_goals cases supplied <;> rfl

/-- If all optional parameters are supplied, no fallback value is used. -/
theorem omitted_eq_nil {position supplied : Nat} (h : optionalCount params ≤ supplied) :
    omitted position supplied params = [] := by
  induction params generalizing position supplied with
  | nil => rfl
  | cons param params ih =>
    rcases optional_or_required param with ⟨pattern, value, rfl⟩ | ⟨-, -, -, rest, count⟩
    · rw [optionalCount_cons_optional] at h
      cases supplied with
      | zero => omega
      | succ supplied => exact ih (Nat.le_of_succ_le_succ h)
    · rw [rest]
      exact ih (count params ▸ h)

/-- A fallback value is passed in the position of its parameter. -/
theorem getElem?_filledArgs {position supplied : Nat} {args : List Tree}
    (length : args.length = (suppliedParams supplied params).length) {i : Nat} {value : Tree}
    (h : (i, value) ∈ omitted position supplied params) :
    ∃ j, i = position + j ∧ (filledArgs supplied params args)[j]? = some value := by
  induction params generalizing position supplied args with
  | nil => cases h
  | cons param params ih =>
    rcases optional_or_required param with ⟨pattern, fallback, rfl⟩ | ⟨given, filled, -, rest, -⟩
    · cases supplied with
      | zero =>
        rcases List.mem_cons.1 h with same | h
        · cases same
          exact ⟨0, rfl, rfl⟩
        · obtain ⟨j, rfl, found⟩ := ih length h
          exact ⟨j + 1, by omega, found⟩
      | succ supplied =>
        cases args with
        | nil => cases length
        | cons arg args =>
          obtain ⟨j, rfl, found⟩ := ih (Nat.succ.inj length) h
          exact ⟨j + 1, by omega, found⟩
    · rw [rest] at h
      rw [given] at length
      cases args with
      | nil => cases length
      | cons arg args =>
        obtain ⟨j, rfl, found⟩ := ih (Nat.succ.inj length) h
        exact ⟨j + 1, by omega, by rw [filled]; exact found⟩

/-- What is passed is an argument or a fallback value. -/
theorem mem_filledArgs {supplied : Nat} {args : List Tree} (position : Nat) {x : Tree}
    (h : x ∈ filledArgs supplied params args) :
    x ∈ args ∨ ∃ i, (i, x) ∈ omitted position supplied params := by
  induction params generalizing position supplied args with
  | nil => cases supplied <;> cases h
  | cons param params ih =>
    rcases optional_or_required param with ⟨pattern, fallback, rfl⟩ | ⟨-, filled, none, rest, -⟩
    · cases supplied with
      | zero =>
        rcases List.mem_cons.1 h with rfl | h
        · exact .inr ⟨position, List.mem_cons_self⟩
        · exact (ih (position + 1) h).imp_right
            fun ⟨i, member⟩ => ⟨i, List.mem_cons_of_mem _ member⟩
      | succ supplied =>
        cases args with
        | nil => cases h
        | cons arg args =>
          rcases List.mem_cons.1 h with rfl | h
          · exact .inl List.mem_cons_self
          · exact (ih (position + 1) h).imp_left (List.mem_cons_of_mem _)
    · rw [rest]
      cases args with
      | nil =>
        rw [none] at h
        cases h
      | cons arg args =>
        rw [filled] at h
        rcases List.mem_cons.1 h with rfl | h
        · exact .inl List.mem_cons_self
        · exact (ih (position + 1) h).imp_left (List.mem_cons_of_mem _)

/-- The body of a shorter variant passes variables on, and the fallback values in their places. -/
theorem mem_args_shorterVariant (supplied : Nat) (params : List Tree) (stem : String) :
    let given := suppliedParams supplied params
    let args := filledArgs supplied params (forward given [] stem)
    (∀ x ∈ args, (∃ name, x = .var name) ∨ ∃ i, (i, x) ∈ omitted 0 supplied params) ∧
      ∀ i value, (i, value) ∈ omitted 0 supplied params → args[i]? = some value := by
  intro given args
  constructor
  · intro x member
    refine (mem_filledArgs 0 member).imp_left fun isArg => ?_
    obtain ⟨named, -, rfl⟩ := List.mem_map.1 isArg
    exact ⟨named.name, rfl⟩
  · intro i value isOmitted
    obtain ⟨j, rfl, found⟩ := getElem?_filledArgs (length_forward given [] stem) isOmitted
    rwa [Nat.zero_add]

/-! ## What an expression needs no preparation for -/

/-- An expression means the same in every unit: it refers to no base and calls no import. -/
structure Explicit (imports : Table Key String) (t : Tree) : Prop where
  /-- It refers to no base. -/
  bound : t.IsBound
  /-- Its bare calls are of routines that are not imported. -/
  unimported : ∀ name args, .call name args ∈ t.walk →
    imports.get? (Key.ofCount name args.length) = none

/-- A prepared expression has, in the place of a bare call of an imported routine, a call that is
qualified with the source of the import. -/
theorem at?_prepared (name : String) {d : Draft} {expr : Tree} {path : List Nat}
    {called source : String} {args : List Tree} (written : expr.at? path = some (.call called args))
    (isImported : d.imports.get? (Key.ofCount called args.length) = some source) :
    ∃ args', (Session.prepared d name expr).at? path = some (.remoteCall source called args') ∧
      args'.length = args.length := by
  have binding : (expr.bound name d.base).at? path =
      some (.call called (args.map (bound name d.base))) := by
    rw [bound, at?_transform (children_boundNode name d.base), written]
    show some (transform _ _) = _
    rw [transform_eq]
    cases d.base <;> rfl
  refine ⟨(args.map (bound name d.base)).map (qualified d.imports), ?_, by simp⟩
  rw [Session.prepared, qualified, at?_transform (children_qualifiedNode d.imports), binding]
  show some (qualified _ _) = _
  rw [qualified_eq, mapChildren, qualifiedNode, List.length_map, List.length_map, isImported]
  rfl

end Tree

/-- The body and the guards of a routine, as the parts of one tree. -/
def Emission.expressions (e : Emission) : Tree := .tuple (e.body :: e.guards)

namespace Declaration

/-- The fallback values that the routine with a number of supplied optional parameters passes, each
with the position of its parameter. -/
def fallbacks (declaration : Declaration) (supplied : Nat) : List (Nat × Tree) :=
  Tree.omitted 0 supplied declaration.params

/-- What the author wrote of the body and the guards of such a routine, each with its address: the
fallback values are the arguments of the body, unless no optional parameter is left out. -/
def written (declaration : Declaration) (supplied : Nat) : List (List Nat × Tree) :=
  if supplied < Tree.optionalCount declaration.params then
    (declaration.fallbacks supplied).map fun fallback => ([0, fallback.1], fallback.2)
  else (declaration.body :: declaration.guards).zipIdx.map fun t => ([t.2], t.1)

end Declaration

/-- **Prepared.**  Nothing in the body and the guards refers to the base, and in the place of every
bare call of an imported routine that the author wrote stands a call qualified with its source. -/
structure Emission.Prepared (imports : Table Key String) (written : List (List Nat × Tree))
    (e : Emission) : Prop where
  /-- Nothing refers to the base. -/
  bound : e.expressions.IsBound
  /-- Imported routines are called by qualified calls. -/
  qualified : ∀ place t, (place, t) ∈ written → ∀ path name args source,
    t.at? path = some (.call name args) →
    imports.get? (Key.ofCount name args.length) = some source →
      ∃ args', e.expressions.at? (place ++ path) = some (.remoteCall source name args') ∧
        args'.length = args.length

namespace Session

variable {declaration : Declaration} {d : Draft} {supplied : Nat}

/-- **The routine with all parameters** is prepared. -/
theorem prepared_fullVariant {body : Tree} {guards : List Tree}
    (isBody : body = prepared d declaration.name declaration.body)
    (areGuards : guards = declaration.guards.map (prepared d declaration.name))
    (isBound : ∀ t ∈ body :: guards, t.IsBound) :
    (variantEmission declaration
        (Tree.fullVariant declaration.params guards body)).Prepared d.imports
      (declaration.written (Tree.optionalCount declaration.params)) where
  bound := Tree.isBound_iff.2 ⟨rfl, isBound⟩
  qualified := by
    intro place t isWritten path name args source isCall isImported
    rw [Declaration.written, if_neg (Nat.lt_irrefl _)] at isWritten
    obtain ⟨⟨t', i⟩, member, same⟩ := List.mem_map.1 isWritten
    cases same
    have inPlace : (body :: guards)[i]? = some (prepared d declaration.name t') := by
      have written := List.mk_mem_zipIdx_iff_getElem?.1 member
      rw [isBody, areGuards, ← List.map_cons, List.getElem?_map, written]
      rfl
    obtain ⟨args', found, length⟩ := Tree.at?_prepared declaration.name isCall isImported
    refine ⟨args', ?_, length⟩
    rw [Emission.expressions, List.singleton_append, Tree.at?_cons_of_child inPlace]
    exact found

/-- The address of a fallback value leads into the arguments of the body of a shorter routine. -/
theorem at?_shorterVariant (stem : String) {i : Nat} {value : Tree}
    (isFallback : (i, value) ∈ declaration.fallbacks supplied) (path : List Nat) :
    (variantEmission declaration (Tree.shorterVariant declaration.name declaration.params stem
      supplied)).expressions.at? ([0, i] ++ path) = value.at? path := by
  obtain ⟨-, inPlace⟩ := Tree.mem_args_shorterVariant supplied declaration.params stem
  generalize isEmission : variantEmission declaration
    (Tree.shorterVariant declaration.name declaration.params stem supplied) = e
  have child : e.expressions.children[0]? = some e.body := rfl
  rw [List.cons_append, Tree.at?_cons_of_child child, List.singleton_append,
    Tree.at?_cons_of_child]
  rw [← isEmission]
  exact inPlace i value isFallback

/-- A shorter routine refers to no base if its fallback values do not. -/
theorem isBound_shorterVariant (stem : String)
    (bound : ∀ fallback ∈ declaration.fallbacks supplied, fallback.2.IsBound) :
    (variantEmission declaration (Tree.shorterVariant declaration.name declaration.params stem
      supplied)).expressions.IsBound := by
  obtain ⟨arguments, -⟩ := Tree.mem_args_shorterVariant supplied declaration.params stem
  refine Tree.isBound_iff.2 ⟨rfl, fun t isBody => ?_⟩
  -- There are no guards, and the body is a call.
  cases List.mem_singleton.1 isBody
  refine Tree.isBound_iff.2 ⟨rfl, fun x isArg => ?_⟩
  rcases arguments x isArg with ⟨name, rfl⟩ | ⟨i, isFallback⟩
  · exact Tree.isBound_iff.2 ⟨rfl, List.forall_mem_nil _⟩
  · exact bound (i, x) isFallback

/-- **A shorter routine** is prepared exactly if the fallback values that it passes need no
preparation. -/
theorem prepared_shorterVariant (imports : Table Key String) (stem : String)
    (within : supplied < Tree.optionalCount declaration.params) :
    (variantEmission declaration
        (Tree.shorterVariant declaration.name declaration.params stem supplied)).Prepared imports
          (declaration.written supplied) ↔
      ∀ fallback ∈ declaration.fallbacks supplied, fallback.2.Explicit imports := by
  constructor
  · rintro prepared ⟨i, value⟩ isFallback
    constructor
    · intro n inside
      obtain ⟨path, found⟩ := Tree.mem_walk_iff.1 inside
      rw [← at?_shorterVariant stem isFallback path] at found
      exact prepared.bound n (Tree.mem_walk_iff.2 ⟨_, found⟩)
    · intro name args inside
      obtain ⟨path, found⟩ := Tree.mem_walk_iff.1 inside
      rw [Option.eq_none_iff_forall_ne_some]
      intro source isImported
      have isWritten : ([0, i], value) ∈ declaration.written supplied := by
        rw [Declaration.written, if_pos within]
        exact List.mem_map_of_mem (f := fun f : Nat × Tree => ([0, f.1], f.2)) isFallback
      obtain ⟨args', qualified, -⟩ :=
        prepared.qualified [0, i] value isWritten path name args source found isImported
      rw [at?_shorterVariant stem isFallback path, found] at qualified
      cases qualified
  · intro explicit
    constructor
    · exact isBound_shorterVariant stem fun fallback isFallback =>
        (explicit fallback isFallback).bound
    · intro place t isWritten path name args source isCall isImported
      rw [Declaration.written, if_pos within] at isWritten
      obtain ⟨⟨i, value⟩, isFallback, same⟩ := List.mem_map.1 isWritten
      cases same
      have unimported := (explicit (i, value) isFallback).unimported name args
        (Tree.mem_walk_iff.2 ⟨path, isCall⟩)
      cases unimported.symm.trans isImported

/-- The units that a shorter routine names are those that its fallback values name. -/
theorem remoteUnits_shorterVariant (stem : String) (supplied : Nat) (u : String) :
    u ∈ (variantEmission declaration (Tree.shorterVariant declaration.name declaration.params stem
        supplied)).expressions.remoteUnits ↔
      ∃ fallback ∈ declaration.fallbacks supplied, u ∈ fallback.2.remoteUnits := by
  obtain ⟨arguments, inPlace⟩ := Tree.mem_args_shorterVariant supplied declaration.params stem
  have units : ∀ args : List Tree, u ∈ (Tree.tuple [.call declaration.name args]).remoteUnits ↔
      ∃ x ∈ args, u ∈ x.remoteUnits := by
    intro args
    rw [Tree.remoteUnits_eq (.tuple _)]
    simp only [Tree.children, Tree.remoteUnit?, Option.toList_none, List.nil_append,
      List.flatMap_cons, List.flatMap_nil, List.append_nil]
    rw [Tree.remoteUnits_eq (.call _ _)]
    simp [Tree.children, Tree.remoteUnit?]
  refine (units _).trans ⟨?_, ?_⟩
  · rintro ⟨x, isArg, names⟩
    rcases arguments x isArg with ⟨name, rfl⟩ | ⟨i, isFallback⟩
    · cases names
    · exact ⟨(i, x), isFallback, names⟩
  · rintro ⟨⟨i, value⟩, isFallback, names⟩
    exact ⟨value, List.mem_iff_getElem?.2 ⟨i, inPlace i value isFallback⟩, names⟩

/-- A declaration that succeeds has prepared what it declares, and each of its routines is declared
as it has been admitted. -/
theorem declared_of_define {b b' : Bench} (loaded : b.Loaded) {store : Store} {spliced : Bool}
    {admissions : List Admission}
    (done : exec (define store declaration spliced) b = (.ok admissions, b')) :
    ∃ body guards units image,
      prepareAll store b.session.draft declaration = .ok (body, guards, units) ∧
      admissions.length = Tree.optionalCount declaration.params + 1 ∧
      b'.program.units.get? b.unit = some image ∧ b'.unit = b.unit ∧
      ∀ (supplied : Nat) v admission, (Tree.expandDefaults declaration.name declaration.params guards body
          b.session.config.stem)[supplied]? = some v →
        admissions[supplied]? = some admission → admission ≠ .inert →
          Writing.Declared (variantEmission declaration v) units admission ⟨b'.session, image⟩ := by
  rcases define_runs loaded store declaration spliced with
    ⟨error, -, failed⟩ | ⟨body, guards, units, admissions', variants, b₁, prepared, rfl, outcome⟩
  · cases failed.symm.trans done
  rcases outcome with ⟨done', length, runs⟩ | ⟨error, failed, -⟩
  swap
  · cases failed.symm.trans done
  cases done'.symm.trans done
  have unit_eq := runs.unit_eq
  obtain ⟨w, ⟨s', image⟩, -, ⟨rfl, held⟩, trace, -⟩ := runs
  rw [unit_eq] at held
  obtain ⟨w₁, declaring, requiring⟩ := trace.append_inv
  refine ⟨body, guards, units, image, prepared, ?_, held, unit_eq,
    fun supplied v admission isVariant isAdmission effective => ?_⟩
  · rw [length, Tree.expandDefaults]
    simp
  · exact (Writing.declared_of_trace Tree.nodup_arities declaring isVariant isAdmission
      effective).requirement requiring

/-- **Declarations.**  Let a declaration succeed in a session whose unit is loaded.  Its routine for
each number of supplied optional parameters is then in the image, unless it is inert, and if it is
recorded, the record is that of the routine.  The routine is prepared exactly if the fallback values
that it passes need no preparation, and the draft depends on all units that a recorded routine names
exactly if it depends on those that the fallback values name.  The routine with all parameters
passes no fallback values. -/
theorem define_prepares {b b' : Bench} (loaded : b.Loaded) {store : Store} {spliced : Bool}
    {admissions : List Admission}
    (done : exec (define store declaration spliced) b = (.ok admissions, b')) :
    admissions.length = Tree.optionalCount declaration.params + 1 ∧
      declaration.fallbacks (Tree.optionalCount declaration.params) = [] ∧
      ∀ supplied admission, admissions[supplied]? = some admission → admission ≠ .inert →
        ∃ image e, b'.program.units.get? b.unit = some image ∧
          e.key = Key.ofCount declaration.name (Tree.leastArity declaration.params + supplied) ∧
          image.routines.get? e.key = some e ∧
          (e.Prepared b.session.draft.imports (declaration.written supplied) ↔
            ∀ fallback ∈ declaration.fallbacks supplied,
              fallback.2.Explicit b.session.draft.imports) ∧
          (admission.isRecorded = true →
            b'.session.draft.routines.get? e.key = some e.record ∧
              ((∀ u ∈ e.expressions.remoteUnits, u ≠ b.unit →
                  b'.session.draft.dependencies.contains u = true) ↔
                ∀ fallback ∈ declaration.fallbacks supplied, ∀ u ∈ fallback.2.remoteUnits,
                  u ≠ b.unit → b'.session.draft.dependencies.contains u = true)) := by
  obtain ⟨body, guards, units, image, prepared, count, held, unit_eq, declared⟩ :=
    declared_of_define loaded done
  obtain ⟨isBody, areGuards, isBound, isUnit⟩ := prepareAll_eq_ok prepared
  have none : declaration.fallbacks (Tree.optionalCount declaration.params) = [] :=
    Tree.omitted_eq_nil (Nat.le_refl _)
  refine ⟨count, none, fun supplied admission isAdmission effective => ?_⟩
  have position : supplied < Tree.optionalCount declaration.params + 1 := by
    rw [← count]
    exact (List.getElem?_eq_some_iff.1 isAdmission).1
  have variant : (Tree.expandDefaults declaration.name declaration.params guards body
      b.session.config.stem)[supplied]? = _ := Tree.getElem?_expandDefaults supplied
  have arity : ∀ v, (Tree.expandDefaults declaration.name declaration.params guards body
      b.session.config.stem)[supplied]? = some v →
      (variantEmission declaration v).key =
        Key.ofCount declaration.name (Tree.leastArity declaration.params + supplied) :=
    fun v isVariant => congrArg (Key.ofCount declaration.name) (Tree.arity_of_getElem? isVariant)
  by_cases shorter : supplied < Tree.optionalCount declaration.params
  · have isVariant := variant.trans (if_pos shorter)
    obtain ⟨stored, recorded⟩ := declared _ _ _ isVariant isAdmission effective
    refine ⟨image, _, held, arity _ isVariant, stored, prepared_shorterVariant _ _ shorter,
      fun isRecorded => ⟨(recorded isRecorded).1, ?_⟩⟩
    constructor
    · intro depends fallback isFallback u names
      exact depends u ((remoteUnits_shorterVariant _ _ u).2 ⟨fallback, isFallback, names⟩)
    · intro depends u names
      obtain ⟨fallback, isFallback, names⟩ := (remoteUnits_shorterVariant _ _ u).1 names
      exact depends fallback isFallback u names
  · obtain rfl : supplied = Tree.optionalCount declaration.params := by omega
    have isVariant := variant.trans ((if_neg shorter).trans (if_pos rfl))
    obtain ⟨stored, recorded⟩ := declared _ _ _ isVariant isAdmission effective
    have isPrepared := prepared_fullVariant isBody areGuards isBound
    refine ⟨image, _, held, arity _ isVariant, stored, iff_of_true isPrepared (by simp [none]),
      fun isRecorded => ⟨(recorded isRecorded).1, iff_of_true ?_ (by simp [none])⟩⟩
    intro u names other
    refine (recorded isRecorded).2 u ((isUnit u).2 ?_) fun same => other (same.trans unit_eq)
    rw [Emission.expressions, Tree.remoteUnits_eq] at names
    exact List.mem_flatMap.1 names

end Session

namespace Workspace

/-- The commands by which a unit is opened that has a base and imports a routine. -/
def preparationCommands : List Command :=
  [.openRoot {} "lib" (.list []),
    .define "lib" ⟨"pred", [.binding "n"], .primitive "-" [.var "n", .literal (.int 1)], [], false,
      false⟩,
    .finish "lib",
    .openRoot {} "base" (.list []),
    .define "base" ⟨"greet", [], .literal (.text "hello"), [], false, false⟩,
    .finish "base",
    .openExtension {} "child" "base" (.list []),
    .importRoutines "child" (.text "lib") none]

/-- A declaration that refers to the base and calls an imported routine, in its body and its guard.
Its optional parameter falls back on a constant. -/
def preparedDeclaration : Declaration :=
  { name := "report"
    params := [.binding "n", .optional (.binding "x") (.literal (.int 1))]
    body := .tuple [.baseCall "greet" [], .call "pred" [.call "pred" [.var "n"]]]
    guards := [.call "pred" [.var "x"]]
    isPrivate := false
    overridable := false }

/-- Both routines of that declaration are prepared, and the draft depends on the units that the full
one names. -/
theorem define_prepares_report :
    ∃ s b, (afterAll ∅ preparationCommands).sessions.get? "child" = some s ∧
      exec (Session.define (afterAll ∅ preparationCommands).store preparedDeclaration false)
        ((afterAll ∅ preparationCommands).bench s) = (.ok [.record, .record], b) ∧
      (∃ image e, b.program.units.get? "child" = some image ∧
        image.routines.get? (.ofCount "report" 1) = some e ∧
        e.Prepared s.draft.imports (preparedDeclaration.written 0)) ∧
      ∃ image e, b.program.units.get? "child" = some image ∧
        image.routines.get? (.ofCount "report" 2) = some e ∧
        e.Prepared s.draft.imports (preparedDeclaration.written 1) ∧
        ∀ u ∈ e.expressions.remoteUnits, u ≠ "child" →
          b.session.draft.dependencies.contains u = true := by
  have opened : ((afterAll ∅ preparationCommands).sessions.get? "child").map (fun s =>
      (exec (Session.define (afterAll ∅ preparationCommands).store preparedDeclaration false)
        ((afterAll ∅ preparationCommands).bench s)).1) = some (.ok [.record, .record]) := by cbv
  obtain ⟨s, session, outcome⟩ := Option.map_eq_some_iff.1 opened
  have coherent := (Reachable.empty.afterAll preparationCommands).coherent
  obtain ⟨named, -⟩ := coherent.session session
  have unit : ((afterAll ∅ preparationCommands).bench s).unit = "child" := named
  obtain ⟨-, none, prepares⟩ :=
    Session.define_prepares (coherent.loaded session) (Prod.ext outcome rfl)
  obtain ⟨image, e, held, key, stored, prepared, -⟩ := prepares 0 .record rfl (by decide)
  obtain ⟨image', e', held', key', stored', prepared', recorded⟩ := prepares 1 .record rfl (by decide)
  have depends := (recorded rfl).2
  rw [unit] at held held' depends
  refine ⟨s, _, session, Prod.ext outcome rfl, ⟨image, e, held, key ▸ stored, prepared.2 ?_⟩,
    image', e', held', key' ▸ stored', prepared'.2 ?_, depends.2 ?_⟩
  · -- The only fallback value is a constant.
    intro fallback isFallback
    cases List.mem_singleton.1 isFallback
    refine ⟨by decide, fun name args inside => ?_⟩
    cases List.mem_singleton.1 inside
  all_goals
    intro fallback isFallback
    cases isFallback

/-- The same commands, after which the unit declares a routine whose parameter falls back on a call
of the base. -/
def unpreparedCommands : List Command :=
  preparationCommands ++ [.define "child"
    ⟨"echo", [.optional (.binding "x") (.baseCall "greet" [])], .var "x", [], false, false⟩]

/-- **A fallback value is not prepared.**  The declaration succeeds, and the routine without
parameters passes the call of the base as it was written, so that calling the routine fails. -/
theorem fallback_unprepared :
    (afterAll ∅ preparationCommands).outcome (.define "child" ⟨"echo",
        [.optional (.binding "x") (.baseCall "greet" [])], .var "x", [], false, false⟩) =
          .ok (.admitted [.record, .record]) ∧
      ((afterAll ∅ unpreparedCommands).program.units.get? "child").map (fun image =>
        (image.routines.get? (.ofCount "echo" 0)).map fun e =>
          (e.body, decide e.expressions.IsBound)) =
        some (some (.call "echo" [.baseCall "greet" []], false)) ∧
      (afterAll ∅ unpreparedCommands).program.call "child" "echo" [] =
        .error (.unboundBaseReference "child" (.baseCall "greet" [])) := by
  cbv

end Workspace

end Heredity
