import Mathlib
import Heredity.Proofs.Declarations
import Heredity.Proofs.Normalization

/-!
# How optional parameters are filled in

A declaration with optional parameters has one routine for each number of arguments.  Those with
fewer arguments than parameters call the full one, and what they pass for a parameter is the
argument that was given for it, if there is one, and its fallback value otherwise.

* `Tree.isSupplied`, `Tree.suppliedPlaces` — the places of the parameters that arguments are given
  for.
* `Filled` — arguments are in their places, and fallback values in all others.
* `filled_filledArgs` — what a shorter routine passes on is filled in this sense.
* `expandDefaults_fills` — the routines of a declaration, and what each of them passes on.

**Places instead of a countdown.**  The routines are made by going through the parameters and
counting the optional ones that are still supplied.  Here a place is supplied or not by what is in
front of it, which says for each parameter by itself what becomes of it.
-/

namespace Heredity.Tree

variable {param : Tree} {params filled args : List Tree} {places : List Nat} {supplied : Nat}

/-! ## Places -/

/-- Whether the parameter at a place is given an argument when the first `supplied` optional ones
are. -/
def isSupplied (supplied : Nat) (params : List Tree) (place : Nat) : Bool :=
  match params[place]? with
  | some (.optional ..) => optionalCount (params.take place) < supplied
  | _ => true

/-- The places of the parameters that are given arguments, in order. -/
def suppliedPlaces (supplied : Nat) (params : List Tree) : List Nat :=
  (List.range params.length).filter (isSupplied supplied params)

/-- The places of a list are the first, if it is supplied, and those of the rest. -/
theorem suppliedPlaces_cons {supplied' : Nat}
    (same : ∀ place, isSupplied supplied (param :: params) (place + 1) =
      isSupplied supplied' params place) :
    suppliedPlaces supplied (param :: params) =
      (if isSupplied supplied (param :: params) 0 then [0] else []) ++
        (suppliedPlaces supplied' params).map (· + 1) := by
  rw [suppliedPlaces, List.length_cons, List.range_succ_eq_map, List.filter_cons, List.filter_map,
    show isSupplied supplied (param :: params) ∘ Nat.succ = isSupplied supplied' params from
      funext same]
  split <;> rfl

/-- The first optional parameter is supplied if any is. -/
theorem suppliedPlaces_cons_optional (supplied : Nat) (pattern value : Tree) (params : List Tree) :
    suppliedPlaces (supplied + 1) (.optional pattern value :: params) =
      0 :: (suppliedPlaces supplied params).map (· + 1) := by
  refine suppliedPlaces_cons fun place => ?_
  simp only [isSupplied, List.getElem?_cons_succ, List.take_succ_cons, optionalCount_cons_optional,
    Nat.add_lt_add_iff_right]

theorem suppliedPlaces_zero_cons_optional (pattern value : Tree) (params : List Tree) :
    suppliedPlaces 0 (.optional pattern value :: params) =
      (suppliedPlaces 0 params).map (· + 1) := by
  refine suppliedPlaces_cons fun place => ?_
  simp only [isSupplied, List.getElem?_cons_succ, Nat.not_lt_zero]

theorem suppliedPlaces_cons_required (supplied : Nat)
    (count : ∀ params, optionalCount (param :: params) = optionalCount params) :
    suppliedPlaces supplied (param :: params) =
      0 :: (suppliedPlaces supplied params).map (· + 1) := by
  have first : isSupplied supplied (param :: params) 0 = true := by
    cases param with
    | optional => cases count []
    | _ => rfl
  rw [suppliedPlaces_cons fun place => ?_, if_pos first]
  · rfl
  · simp only [isSupplied, List.getElem?_cons_succ, List.take_succ_cons, count]

/-! ## Filling in -/

/-- What is passed on for the parameters: arguments in their places, and in all other places the
fallback values of the parameters there. -/
structure Filled (params filled args : List Tree) (places : List Nat) : Prop where
  /-- There is something for every parameter. -/
  length : filled.length = params.length
  /-- The arguments are in their places, in order. -/
  given : List.Forall₂ (fun place arg => filled[place]? = some arg) places args
  /-- In every other place is an optional parameter, and its fallback value is passed. -/
  omitted : ∀ place < params.length, place ∉ places → ∃ pattern value,
    params[place]? = some (.optional pattern value) ∧ filled[place]? = some value

theorem Filled.nil : Filled [] [] [] [] :=
  ⟨rfl, .nil, fun _ outside => absurd outside (Nat.not_lt_zero _)⟩

theorem Filled.cons_given (h : Filled params filled args places) (param arg : Tree) :
    Filled (param :: params) (arg :: filled) (arg :: args) (0 :: places.map (· + 1)) := by
  refine ⟨congrArg (· + 1) h.length, .cons rfl (List.forall₂_map_left_iff.2 h.given), ?_⟩
  intro place inside other
  cases place with
  | zero => exact absurd List.mem_cons_self other
  | succ place =>
    refine h.omitted place (Nat.lt_of_succ_lt_succ inside) fun member => other ?_
    exact List.mem_cons_of_mem _ (List.mem_map_of_mem member)

theorem Filled.cons_omitted (h : Filled params filled args places) (pattern value : Tree) :
    Filled (.optional pattern value :: params) (value :: filled) args (places.map (· + 1)) := by
  refine ⟨congrArg (· + 1) h.length, List.forall₂_map_left_iff.2 h.given, ?_⟩
  intro place inside other
  cases place with
  | zero => exact ⟨pattern, value, rfl, rfl⟩
  | succ place =>
    exact h.omitted place (Nat.lt_of_succ_lt_succ inside)
      fun member => other (List.mem_map_of_mem member)

/-- **Filling in.**  If there are as many arguments as supplied parameters, each is in the place of
its parameter, and the fallback values are in theirs. -/
theorem filled_filledArgs (length : args.length = (suppliedParams supplied params).length) :
    Filled params (filledArgs supplied params args) args (suppliedPlaces supplied params) := by
  induction params generalizing supplied args with
  | nil =>
    obtain rfl := List.eq_nil_of_length_eq_zero length
    exact .nil
  | cons param params ih =>
    rcases optional_or_required param with ⟨pattern, value, rfl⟩ | ⟨given, filled, -, -, count⟩
    · cases supplied with
      | zero =>
        rw [suppliedPlaces_zero_cons_optional]
        exact (ih length).cons_omitted pattern value
      | succ supplied =>
        cases args with
        | nil => cases length
        | cons arg args =>
          rw [suppliedPlaces_cons_optional]
          exact (ih (Nat.succ.inj length)).cons_given _ arg
    · rw [given] at length
      cases args with
      | nil => cases length
      | cons arg args =>
        rw [suppliedPlaces_cons_required supplied count, filled]
        exact (ih (Nat.succ.inj length)).cons_given param arg

/-! ## Matching -/

/-- What supplied parameters bind, the parameters bind. -/
theorem bindings_suppliedParams_sublist (supplied : Nat) (params : List Tree) :
    ((suppliedParams supplied params).flatMap bindings).Sublist (params.flatMap bindings) := by
  induction params generalizing supplied with
  | nil => exact List.Sublist.refl _
  | cons param params ih =>
    rw [List.flatMap_cons]
    rcases optional_or_required param with ⟨pattern, value, rfl⟩ | ⟨given, -, -, -, -⟩
    · cases supplied with
      | zero => exact (ih 0).trans (List.sublist_append_right _ _)
      | succ supplied =>
        exact (bindings_required_sublist (.optional pattern value)).append (ih supplied)
    · rw [given]
      exact (List.Sublist.refl _).append (ih supplied)

theorem forall₂_comp {α β γ : Type} {R : α → β → Prop} {S : β → γ → Prop} {xs : List α}
    {ys : List β} {zs : List γ} (h : List.Forall₂ R xs ys) (h' : List.Forall₂ S ys zs) :
    List.Forall₂ (fun x z => ∃ y, R x y ∧ S y z) xs zs := by
  induction h generalizing zs with
  | nil =>
    cases h'
    exact .nil
  | cons first _ ih =>
    cases h' with
    | cons first' rest' => exact .cons ⟨_, first, first'⟩ (ih rest')

/-- When the parameters of a shorter routine match, what it passes on holds the arguments. -/
theorem forward_of_matchAll {stem : String} {values : List Value} {env : Env}
    (linear : (params.flatMap bindings).Nodup) (length : params.length = values.length)
    (h : matchAll (normalize params [] stem) values ∅ = .ok (true, env)) :
    List.Forall₂ (fun t value => ∃ x, t = .var x ∧ env.get? x = some value)
      (forward params [] stem) values := by
  obtain ⟨env₀, plain⟩ := ((normalize_isNormalForm params [] stem).succeeds_iff values).1 ⟨env, h⟩
  obtain ⟨env', named, -, holds⟩ := matchAll_normalize [] stem linear length plain
  rw [h] at named
  cases named
  exact holds

/-- A routine with fewer parameters than the declaration is one with optional ones left out. -/
theorem exists_shorterVariant {name : String} {guards : List Tree} {body : Tree} {stem : String}
    {v : Variant} (member : v ∈ expandDefaults name params guards body stem)
    (shorter : v.arity < params.length) :
    ∃ supplied < optionalCount params, v = shorterVariant name params stem supplied := by
  rcases List.mem_append.1 member with short | full
  · obtain ⟨supplied, less, rfl⟩ := List.mem_map.1 short
    exact ⟨supplied, List.mem_range.1 less, rfl⟩
  · obtain rfl := List.mem_singleton.1 full
    exact absurd shorter (Nat.lt_irrefl _)

/-- **Expanding optional parameters.**  A declaration in which no name is bound twice has one
routine for each number of arguments from that of the required parameters to that of all, with as
many parameters.  The last is the declared one.  Every other, when it is called, calls the declared
one with the arguments, in order, in the places of the required and of the first optional
parameters, and with the fallback values of the other parameters in theirs. -/
theorem expandDefaults_fills (name : String) (params guards : List Tree) (body : Tree)
    (stem : String) (linear : (params.flatMap bindings).Nodup) :
    (expandDefaults name params guards body stem).map Variant.arity =
        List.range' (params.length - optionalCount params) (optionalCount params + 1) ∧
      (∀ v ∈ expandDefaults name params guards body stem, v.params.length = v.arity) ∧
      (expandDefaults name params guards body stem).getLast? =
        some ⟨params.length, params.map required, guards, body⟩ ∧
      ∀ v ∈ expandDefaults name params guards body stem, v.arity < params.length →
        ∀ values env, values.length = v.arity → matchAll v.params values ∅ = .ok (true, env) →
          let places := suppliedPlaces (v.arity - (params.length - optionalCount params)) params
          ∃ args, v.body = .call name args ∧ args.length = params.length ∧
            List.Forall₂ (fun place value => ∃ x, args[place]? = some (.var x) ∧
              env.get? x = some value) places values ∧
            ∀ place < params.length, place ∉ places → ∃ pattern value,
              params[place]? = some (.optional pattern value) ∧ args[place]? = some value := by
  refine ⟨?_, fun v => length_params_of_mem_expandDefaults, ?_, ?_⟩
  · rw [arities_expandDefaults, leastArity]
    simp [expandDefaults]
  · exact List.getLast?_concat
  · intro v member shorter values env length matched places
    obtain ⟨supplied, less, rfl⟩ := exists_shorterVariant member shorter
    have isSupplied : places = suppliedPlaces supplied params :=
      congrArg (suppliedPlaces · params) (Nat.add_sub_cancel_left ..)
    have given := length_suppliedParams supplied params (Nat.le_of_lt less)
    have forwards := forward_of_matchAll (linear.sublist (bindings_suppliedParams_sublist _ _))
      (given.trans length.symm) matched
    have filled := filled_filledArgs (length_forward (suppliedParams supplied params) [] stem)
    rw [isSupplied]
    refine ⟨_, rfl, filled.length, ?_, filled.omitted⟩
    refine (forall₂_comp filled.given forwards).imp ?_
    rintro place value ⟨_, isArg, x, rfl, bound⟩
    exact ⟨x, isArg, bound⟩

/-- Parameters of which the first and the third have fallback values. -/
def scatteredParams : List Tree :=
  [.optional (.binding "a") (.literal (.int 1)), .tuplePattern [.binding "b", .wildcard "_"],
    .optional (.wildcard "_") (.call "f" [.var "arg_1"]), .binding "c"]

/-- Arguments for three of them. -/
def scatteredArgs : List Value := [.int 7, .tuple [.int 8, .int 9], .int 3]

/-- Of three arguments one is for the first optional parameter, and none for the second. -/
theorem expandDefaults_fills_scattered :
    (scatteredParams.flatMap bindings).Nodup ∧
      ∃ v ∈ expandDefaults "f" scatteredParams [] (.var "c") "arg_", v.arity = 3 ∧
        ∃ env, matchAll v.params scatteredArgs ∅ = .ok (true, env) ∧
          ∃ args, v.body = .call "f" args ∧ args.length = 4 ∧
            (∃ x, args[1]? = some (.var x) ∧ env.get? x = some (.tuple [.int 8, .int 9])) ∧
            args[2]? = some (.call "f" [.var "arg_1"]) := by
  have linear : (scatteredParams.flatMap bindings).Nodup := by decide
  have evaluated : (expandDefaults "f" scatteredParams [] (.var "c") "arg_")[1]?.map (fun v =>
      (v.arity, matchAll v.params scatteredArgs ∅)) =
        some (3, .ok (true, Table.ofList [("a", .int 7), ("b", .int 8),
          ("arg_2", .tuple [.int 8, .int 9]), ("c", .int 3)])) := by
    cbv
  obtain ⟨v, isVariant, found⟩ := Option.map_eq_some_iff.1 evaluated
  obtain ⟨arity, matched⟩ := Prod.mk.inj found
  have member := List.mem_of_getElem? isVariant
  obtain ⟨-, -, -, fills⟩ := expandDefaults_fills "f" scatteredParams [] (.var "c") "arg_" linear
  have shorter : v.arity < scatteredParams.length := arity ▸ (by decide)
  obtain ⟨args, body, length, given, omitted⟩ :=
    fills v member shorter scatteredArgs _ arity.symm matched
  rw [arity] at given omitted
  change List.Forall₂ _ [0, 1, 3] [_, _, _] at given
  rw [List.forall₂_cons, List.forall₂_cons] at given
  refine ⟨linear, v, member, arity, _, matched, args, body, length, given.2.1, ?_⟩
  obtain ⟨pattern, value, isParam, isArg⟩ := omitted 2 (by decide) (by decide)
  cases isParam
  exact isArg

end Heredity.Tree
