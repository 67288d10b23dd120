import Mathlib
import Heredity.Proofs.Declarations
import Heredity.Proofs.Normalization
import Heredity.Proofs.Scoping

/-!
# What synthetic names capture

A routine that is copied, or made for fewer arguments, gets parameters with synthetic names.  Such a
name is one that neither the parameters bind nor the guards mention.  The body is not asked, so a
variable that the author left unbound in it is bound if it happens to have that name.  This file
says exactly which variables these are.

* `Tree.IsFirst` — a name is the first that is not taken when underscores are put after another one.
* `Tree.MadeUp` — the synthetic name of a parameter, by its place alone.
* `syntheticAt_normalize` — normalized parameters have these names and no others.
* `get?_of_unbound` — a variable that the parameters leave unbound has the value of the argument at
  the place for which its name is made up, and none otherwise.
* `capture_iff` — what this means for copied routines and for those with fewer arguments.

**Places do not interfere.**  Names that were made up before are taken, too, but a name for one
place is never tried for another: the number in it would have to be the same.
-/

namespace Heredity

namespace Tree

variable {taken made : List String} {params guards : List Tree} {name base stem : String}
  {place : Nat}

/-! ## Rows of names -/

/-- A name with underscores after it. -/
def padded : Nat → String → String
  | 0, name => name
  | count + 1, name => padded count (name ++ "_")

theorem toList_padded (count : Nat) (name : String) :
    (padded count name).toList = name.toList ++ List.replicate count '_' := by
  induction count generalizing name with
  | zero => exact (List.append_nil _).symm
  | succ count ih =>
    rw [padded, ih, String.toList_append, List.append_assoc, List.replicate_succ]
    rfl

/-- The names that are tried for different numbers differ. -/
theorem eq_of_padded_eq {count count' position position' : Nat}
    (h : padded count (stem ++ toString position) = padded count' (stem ++ toString position')) :
    position = position' := by
  have digits : ∀ count position : Nat,
      ((toString position).toList ++ List.replicate count '_').takeWhile (· != '_') =
        (toString position).toList := by
    intro count position
    have none : (List.replicate count '_').takeWhile (· != '_') = [] := by cases count <;> rfl
    rw [List.takeWhile_append_of_pos, none, List.append_nil]
    intro c isDigit
    rw [bne_iff_ne]
    rintro rfl
    exact Nat.underscore_not_in_toDigits (Nat.toList_repr ▸ isDigit)
  have lists := congrArg String.toList h
  rw [toList_padded, toList_padded, String.toList_append, String.toList_append, List.append_assoc,
    List.append_assoc, List.append_cancel_left_eq] at lists
  have same := congrArg (List.takeWhile (· != '_')) lists
  rw [digits, digits] at same
  exact Nat.repr_injective (String.toList_injective same)

/-- A name is the first that is not taken when underscores are put after another one. -/
def IsFirst (taken : List String) (base name : String) : Prop :=
  ∃ count, name = padded count base ∧ name ∉ taken ∧
    ∀ fewer < count, padded fewer base ∈ taken

theorem IsFirst.unique {name' : String} (h : IsFirst taken base name)
    (h' : IsFirst taken base name') : name = name' := by
  obtain ⟨count, rfl, free, before⟩ := h
  obtain ⟨count', rfl, free', before'⟩ := h'
  rcases Nat.lt_trichotomy count count' with less | rfl | more
  · exact absurd (before' count less) free
  · rfl
  · exact absurd (before count' more) free'

theorem exists_padded_freshAfter (fuel : Nat) (taken : List String) (base : String) :
    ∃ count, freshAfter fuel taken base = padded count base ∧
      ∀ fewer < count, padded fewer base ∈ taken := by
  induction fuel generalizing taken base with
  | zero => exact ⟨0, rfl, fun _ none => absurd none (Nat.not_lt_zero _)⟩
  | succ fuel ih =>
    rw [freshAfter_succ]
    split
    · next isTaken =>
      obtain ⟨count, same, before⟩ := ih (taken.filter (· ≠ base)) (base ++ "_")
      refine ⟨count + 1, same, fun fewer less => ?_⟩
      cases fewer with
      | zero => exact isTaken
      | succ fewer => exact (List.mem_filter.1 (before fewer (Nat.lt_of_succ_lt_succ less))).1
    · exact ⟨0, rfl, fun _ none => absurd none (Nat.not_lt_zero _)⟩

/-- The first name that is not taken is found. -/
theorem fresh_eq_iff : fresh taken base = name ↔ IsFirst taken base name := by
  have isFirst : IsFirst taken base (fresh taken base) := by
    obtain ⟨count, same, before⟩ := exists_padded_freshAfter taken.length taken base
    exact ⟨count, same, fresh_not_mem _ _, before⟩
  constructor
  · rintro rfl
    exact isFirst
  · exact isFirst.unique

/-- Names that are never tried may be taken as well. -/
theorem isFirst_append_iff (apart : ∀ count, padded count base ∉ made) :
    IsFirst (made ++ taken) base name ↔ IsFirst taken base name := by
  have same : ∀ count, padded count base ∈ made ++ taken ↔ padded count base ∈ taken :=
    fun count => List.mem_append.trans (or_iff_right (apart count))
  constructor
  all_goals
    rintro ⟨count, rfl, free, before⟩
    refine ⟨count, rfl, ?_, fun fewer less => ?_⟩
  · rwa [← same]
  · exact (same fewer).1 (before fewer less)
  · rwa [same]
  · exact (same fewer).2 (before fewer less)

/-! ## The names of places -/

/-- The parameter at a place has no name of its own, and this is the first name for it that neither
the parameters bind nor the guards mention. -/
structure MadeUp (stem : String) (params guards : List Tree) (place : Nat) (name : String) :
    Prop where
  /-- The parameter has no name of its own. -/
  nameless : ∃ param, params[place]? = some param ∧ ownName? (required param) = none
  /-- The name is the first that is not taken. -/
  first : IsFirst (takenNames params guards) (stem ++ toString (place + 1)) name

theorem syntheticAt_succ {param entry : Tree} {result : List Tree} :
    SyntheticAt (param :: params) (entry :: result) (place + 1) name ↔
      SyntheticAt params result place name := Iff.rfl

/-- A name is tried for a place before this one. -/
def TriedBefore (stem : String) (position : Nat) (name : String) : Prop :=
  ∃ earlier < position, ∃ count, name = padded count (stem ++ toString earlier)

theorem TriedBefore.succ {position : Nat} (h : TriedBefore stem position name) :
    TriedBefore stem (position + 1) name := by
  obtain ⟨earlier, less, tried⟩ := h
  exact ⟨earlier, Nat.lt_succ_of_lt less, tried⟩

/-- What is tried for a place is not tried before. -/
theorem not_triedBefore (count position : Nat) :
    ¬ TriedBefore stem position (padded count (stem ++ toString position)) := by
  rintro ⟨earlier, less, count', same⟩
  exact absurd (eq_of_padded_eq same) (Nat.ne_of_gt less)

theorem triedBefore_fresh (taken : List String) (position : Nat) :
    TriedBefore stem (position + 1) (fresh taken (stem ++ toString position)) := by
  obtain ⟨count, same, -⟩ := exists_padded_freshAfter taken.length taken (stem ++ toString position)
  exact ⟨position, Nat.lt_succ_self _, count, same⟩

/-- What is made up for a place does not depend on what was made up for the places before. -/
theorem syntheticAt_nameFrom {position : Nat}
    (apart : ∀ x ∈ made, TriedBefore stem position x) :
    SyntheticAt params ((nameFrom stem position (made ++ taken) params).map Named.pattern) place
        name ↔
      (∃ param, params[place]? = some param ∧ ownName? (required param) = none) ∧
        IsFirst taken (stem ++ toString (position + place)) name := by
  induction params generalizing position made place with
  | nil => simp [SyntheticAt]
  | cons param params ih =>
    rw [nameFrom]
    split
    · next own isOwn =>
      cases place with
      | zero =>
        refine iff_of_false (not_syntheticAt_zero isOwn) ?_
        rintro ⟨⟨_, isParam, nameless⟩, -⟩
        cases isParam
        cases nameless.symm.trans isOwn
      | succ place =>
        rw [List.map_cons, syntheticAt_succ, ih fun x member => (apart x member).succ,
          Nat.add_right_comm]
        rfl
    · next nameless =>
      cases place with
      | zero =>
        have untried : ∀ count, padded count (stem ++ toString position) ∉ made :=
          fun count member => not_triedBefore count position (apart _ member)
        rw [List.map_cons, syntheticAt_zero, Nat.add_zero, ← isFirst_append_iff untried,
          ← fresh_eq_iff]
        constructor
        · rintro ⟨-, same⟩
          exact ⟨⟨param, rfl, nameless⟩, withName_inj same⟩
        · rintro ⟨-, rfl⟩
          exact ⟨nameless, rfl⟩
      | succ place =>
        have tried : ∀ x ∈ fresh (made ++ taken) (stem ++ toString position) :: made,
            TriedBefore stem (position + 1) x :=
          List.forall_mem_cons.2
            ⟨triedBefore_fresh _ _, fun x member => (apart x member).succ⟩
        rw [List.map_cons, syntheticAt_succ, ← List.cons_append, ih tried, Nat.add_right_comm]
        rfl

/-- **The synthetic names** of normalized parameters are those made up for their places. -/
theorem syntheticAt_normalize :
    SyntheticAt params (normalize params guards stem) place name ↔
      MadeUp stem params guards place name := by
  have names : SyntheticAt params
      ((nameFrom stem 1 ([] ++ takenNames params guards) params).map Named.pattern) place name ↔
        (∃ param, params[place]? = some param ∧ ownName? (required param) = none) ∧
          IsFirst (takenNames params guards) (stem ++ toString (1 + place)) name :=
    syntheticAt_nameFrom nofun
  rw [Nat.add_comm 1 place] at names
  exact names.trans ⟨fun ⟨nameless, first⟩ => ⟨nameless, first⟩,
    fun ⟨nameless, first⟩ => ⟨nameless, first⟩⟩

/-! ## What is captured -/

/-- Patterns beyond the number of the arguments take no part in a match. -/
theorem matchAll_take (patterns : List Tree) (values : List Value) (env : Env) :
    matchAll (patterns.take values.length) values env = matchAll patterns values env := by
  induction patterns generalizing values env with
  | nil => rw [List.take_nil]
  | cons t patterns ih =>
    cases values with
    | nil => rfl
    | cons value values =>
      rw [List.length_cons, List.take_succ_cons, matchAll_cons, matchAll_cons]
      refine bind_congr fun result => ?_
      split
      · exact ih _ _
      · rfl

/-- A pattern with a synthetic name binds that, and what it binds without. -/
theorem bindings_withName_subset (name : String) (t : Tree) :
    bindings (withName name t) ⊆ name :: bindings t := by
  rw [bindings_eq]
  cases t with
  | wildcard => exact List.Subset.refl _
  | _ => simp [withName, children, boundName?]

/-- A variable that the parameters leave unbound is bound at a place only if it is the synthetic
name there. -/
theorem syntheticAt_of_mem_bindings {entry : Tree}
    (isEntry : (normalize params guards stem)[place]? = some entry) (bound : name ∈ bindings entry)
    (unbound : name ∉ params.flatMap bindings) :
    SyntheticAt params (normalize params guards stem) place name := by
  have form := normalize_isNormalForm params guards stem
  have inside : place < params.length := by
    rw [← form.length]
    exact (List.getElem?_eq_some_iff.1 isEntry).1
  obtain ⟨param, isParam⟩ : ∃ param, params[place]? = some param :=
    ⟨_, List.getElem?_eq_getElem inside⟩
  have other : name ∉ bindings (required param) := fun member => unbound (List.mem_flatMap.2
    ⟨param, List.mem_of_getElem? isParam, (bindings_required_sublist param).subset member⟩)
  cases own : ownName? (required param) with
  | some own' =>
    cases isEntry.symm.trans (form.own isParam own)
    exact absurd bound other
  | none =>
    obtain ⟨made, isSynthetic⟩ := form.synthetic isParam own
    have ⟨param', isParam', _, isEntry'⟩ := isSynthetic
    cases isParam.symm.trans isParam'
    cases isEntry.symm.trans isEntry'
    rcases List.mem_cons.1 (bindings_withName_subset _ _ bound) with rfl | member
    · exact isSynthetic
    · exact absurd member other

/-- **What is captured.**  When normalized parameters have matched, a variable that the parameters
leave unbound has the value of the argument at the place for which its name is made up, and none
otherwise. -/
theorem get?_of_unbound {args : List Value} {env : Env} {value : Value}
    (h : matchAll (normalize params guards stem) args ∅ = .ok (true, env))
    (unbound : name ∉ params.flatMap bindings) :
    env.get? name = some value ↔
      ∃ place, MadeUp stem params guards place name ∧ args[place]? = some value := by
  have holds : ∀ {place arg}, SyntheticAt params (normalize params guards stem) place name →
      args[place]? = some arg → env.get? name = some arg :=
    (normalize_isNormalForm params guards stem).holds h
  constructor
  · intro bound
    rw [← matchAll_take] at h
    obtain ⟨entry, isTaken, inEntry⟩ := List.mem_flatMap.1
      ((matchAll_grows_flatMap h).mem_of_bound rfl bound)
    obtain ⟨place, isEntry⟩ := List.mem_iff_getElem?.1 isTaken
    rw [List.getElem?_take, Option.ite_none_right_eq_some] at isEntry
    obtain ⟨inside, isEntry⟩ := isEntry
    have isSynthetic := syntheticAt_of_mem_bindings isEntry inEntry unbound
    have isArg := List.getElem?_eq_getElem inside
    have same := (holds isSynthetic isArg).symm.trans bound
    exact ⟨place, syntheticAt_normalize.1 isSynthetic, isArg.trans same⟩
  · rintro ⟨place, isMadeUp, isArg⟩
    exact holds (syntheticAt_normalize.2 isMadeUp) isArg

/-- What synthetic names do to expressions that are evaluated when parameters have matched. -/
structure Captures (stem : String) (params guards result texts : List Tree) : Prop where
  /-- They occur in none of the expressions exactly if the names that are made up do not. -/
  hygienic_iff : (∀ place name, SyntheticAt params result place name →
      ∀ t ∈ texts, name ∉ references t) ↔
    ∀ t ∈ texts, ∀ name ∈ references t, ∀ place, ¬ MadeUp stem params guards place name
  /-- A variable that the parameters leave unbound has the value of the argument for whose place its
  name is made up, and no value otherwise. -/
  value_iff : ∀ {args env name value}, matchAll result args ∅ = .ok (true, env) →
    name ∉ params.flatMap bindings →
      (env.get? name = some value ↔
        ∃ place, MadeUp stem params guards place name ∧ args[place]? = some value)

theorem normalize_captures (stem : String) (params guards texts : List Tree) :
    Captures stem params guards (normalize params guards stem) texts where
  hygienic_iff := by
    simp only [syntheticAt_normalize]
    exact ⟨fun apart t isText name used place isMadeUp => apart place name isMadeUp t isText used,
      fun apart place name isMadeUp t isText used => apart t isText name used place isMadeUp⟩
  value_iff := get?_of_unbound

end Tree

open Heredity.Tree (SyntheticAt MadeUp Captures)

/-- **What synthetic names capture.**  In a copied routine they occur in no guard, and in the body
exactly if the author used a variable of a name that is made up; copying keeps the variables.  In
what is made of a declaration for fewer arguments, they occur in the fallback values that it passes
on exactly if the author used such a variable there.  Wherever they occur, and nowhere else, a
variable that the author left unbound becomes an argument. -/
theorem capture_iff {config : Config} {base : Registry} {r copy : RoutineRecord}
    {needs : List String} (copying : copyRoutine config base r = .ok (copy, needs)) (name : String)
    (params guards : List Tree) (body : Tree) (stem : String) {supplied : Nat}
    (shorter : supplied < Tree.optionalCount params) :
    ((∀ place name, SyntheticAt r.params copy.params place name →
        ∀ guard ∈ copy.guards, name ∉ guard.references) ∧
      copy.body.references = r.body.references ∧
      Captures config.stem r.params r.guards copy.params [copy.body]) ∧
    ∃ v args, (Tree.expandDefaults name params guards body stem)[supplied]? = some v ∧
      v.guards = [] ∧ v.body = .call name args ∧
      (∀ fallback ∈ Tree.omitted 0 supplied params, args[fallback.1]? = some fallback.2) ∧
      Captures stem (Tree.suppliedParams supplied params) [] v.params
        ((Tree.omitted 0 supplied params).map Prod.snd) := by
  constructor
  · obtain rfl := copyRoutine_eq_ok copying
    refine ⟨fun place name isSynthetic guard isGuard mentioned => ?_,
      Tree.references_qualified _ _, Tree.normalize_captures _ _ _ _⟩
    obtain ⟨written, isWritten, rfl⟩ := List.mem_map.1 isGuard
    rw [Tree.references_qualified] at mentioned
    exact (Tree.normalize_isNormalForm r.params r.guards config.stem).unmentioned isSynthetic
      (List.mem_flatMap.2 ⟨written, isWritten, mentioned⟩)
  · obtain ⟨-, inPlace⟩ := Tree.mem_args_shorterVariant supplied params stem
    refine ⟨Tree.shorterVariant name params stem supplied, _, ?_, rfl, rfl,
      fun fallback => inPlace fallback.1 fallback.2, Tree.normalize_captures _ _ _ _⟩
    rw [Tree.getElem?_expandDefaults, if_pos shorter]

/-- A routine that uses the name which is made up for its parameter. -/
def capturingRoutine : RoutineRecord :=
  ⟨[.wildcard "_"], [], .tuple [.var "arg_1", .var "arg_2"], .native, false⟩

/-- Parameters of which the second falls back on a variable of that name. -/
def capturingParams : List Tree := [.wildcard "_", .optional (.binding "x") (.var "arg_1")]

/-- The name is made up for a wildcard in the first place. -/
theorem madeUp_wildcard : MadeUp "arg_" [.wildcard "_"] [] 0 "arg_1" :=
  Tree.syntheticAt_normalize.1 ⟨_, rfl, rfl, by cbv⟩

/-- Of the two variables that it leaves unbound, the copy binds one; so does the routine that calls
the full one with the fallback value. -/
theorem capture_iff_wildcard :
    (∃ copy env, copyRoutine {} { unit := "base" } capturingRoutine = .ok (copy, []) ∧
      Tree.matchAll copy.params [.int 7] ∅ = .ok (true, env) ∧
      env.get? "arg_1" = some (.int 7) ∧ ∀ value, env.get? "arg_2" ≠ some value) ∧
    ∃ v args env,
      (Tree.expandDefaults "g" capturingParams [] (.var "x") "arg_")[0]? = some v ∧
      v.body = .call "g" args ∧ args[1]? = some (.var "arg_1") ∧
      Tree.matchAll v.params [.int 7] ∅ = .ok (true, env) ∧ env.get? "arg_1" = some (.int 7) := by
  have evaluated : copyRoutine {} { unit := "base" } capturingRoutine =
        .ok ({ capturingRoutine with params := [.binding "arg_1"], origin := .copied }, []) ∧
      ((Tree.expandDefaults "g" capturingParams [] (.var "x") "arg_")[0]?.map Tree.Variant.params) =
        some [.binding "arg_1"] ∧
      Tree.matchAll [.binding "arg_1"] [.int 7] ∅ =
        .ok (true, Table.ofList [("arg_1", .int 7)]) := by
    cbv
  have shorter : 0 < Tree.optionalCount capturingParams := by decide
  obtain ⟨copying, isShorter, matching⟩ := evaluated
  obtain ⟨⟨-, -, captures⟩, v, args, isVariant, -, body, inPlace, captures'⟩ :=
    capture_iff copying "g" capturingParams [] (.var "x") "arg_" shorter
  constructor
  · refine ⟨_, _, copying, matching, ?_, fun value bound => ?_⟩
    · exact (captures.value_iff matching (by decide)).2 ⟨0, madeUp_wildcard, rfl⟩
    · obtain ⟨place, isOther, isArg⟩ := (captures.value_iff matching (by decide)).1 bound
      obtain rfl : place = 0 := by
        obtain ⟨inside, -⟩ := List.getElem?_eq_some_iff.1 isArg
        exact Nat.lt_one_iff.1 inside
      exact absurd (isOther.first.unique madeUp_wildcard.first) (by decide)
  · rw [isVariant] at isShorter
    have params : v.params = [.binding "arg_1"] := Option.some.inj isShorter
    rw [params] at captures'
    refine ⟨v, args, _, isVariant, body, ?_, params ▸ matching, ?_⟩
    · exact inPlace (1, .var "arg_1") (List.mem_singleton_self _)
    · exact (captures'.value_iff matching (by decide)).2 ⟨0, madeUp_wildcard, rfl⟩

namespace Workspace

/-- A base whose author left a variable unbound, in a body and in a fallback value. -/
def capturingCommands : List Command :=
  [.openRoot {} "base" (.list []),
    .define "base" ⟨"f", [.wildcard "_"], .var "arg_1", [], false, false⟩,
    .define "base" ⟨"g", [.wildcard "_", .optional (.binding "x") (.var "arg_1")], .var "x", [],
      false, false⟩,
    .finish "base", .openExtension {} "child" "base" (.list [])]

/-- **Unbound variables become arguments.**  The routine fails in the base for want of the value of
a variable.  Its copy has a parameter of that name, and answers with the argument; so does the
routine for fewer arguments, in the base itself. -/
theorem unbound_captured :
    (afterAll ∅ capturingCommands).program.call "base" "f" [.int 7] =
        .error (.unboundVariable "arg_1" "base") ∧
      (((afterAll ∅ capturingCommands).sessions.get? "child").bind fun s =>
        (s.draft.routines.get? (.ofCount "f" 1)).map fun r => (r.params, r.body)) =
          some ([.binding "arg_1"], .var "arg_1") ∧
      (afterAll ∅ capturingCommands).program.call "child" "f" [.int 7] = .ok (.int 7) ∧
      (afterAll ∅ capturingCommands).program.call "base" "g" [.int 7] = .ok (.int 7) := by
  cbv

end Workspace

end Heredity
