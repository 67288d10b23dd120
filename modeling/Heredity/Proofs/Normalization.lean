import Mathlib
import Heredity.Proofs.Matching

/-!
# What normalization leaves as it was

A normalized list of parameters has a name for every argument.  This file proves that the names cost
nothing: the list matches exactly the arguments that the parameters match, and nothing that the
parameters bind or the guards mention is touched.

* `Naming` — what naming a list of parameters may give, without the way in which names are made up.
* `SyntheticAt` — the names that a normalized list has and its parameters have not.
* `IsNormalForm` — what is wanted of a normalized list, with `normalize_isNormalForm`.

**Names are only known to be new.**  The proofs use of a synthetic name that it is not among those
taken when it is made up, and that it is taken from then on.  `Naming` says just this, so that how a
stem, a position and underscores make a name matters to `naming_nameFrom` alone.
-/

namespace Heredity

theorem Env.AgreeOn.symm {names : List String} {env env' : Env} (h : Env.AgreeOn names env env') :
    Env.AgreeOn names env' env := fun name isName => (h name isName).symm

namespace Tree

variable {names taken : List String} {params guards : List Tree} {named : List Named}
variable {name : String} {place : Nat}

/-! ## Naming -/

/-- What naming parameters may give: a parameter with a name of its own stays as it is, without its
fallback, and any other gets a name that is not taken, but is from then on. -/
inductive Naming : List String → List Tree → List Named → Prop
  | nil {taken : List String} : Naming taken [] []
  | own {taken : List String} {param : Tree} {params : List Tree} {name : String}
      {named : List Named} (isOwn : ownName? (required param) = some name)
      (rest : Naming taken params named) :
      Naming taken (param :: params) (⟨required param, name⟩ :: named)
  | synthetic {taken : List String} {param : Tree} {params : List Tree} {name : String}
      {named : List Named} (nameless : ownName? (required param) = none) (untaken : name ∉ taken)
      (rest : Naming (name :: taken) params named) :
      Naming taken (param :: params) (⟨withName name (required param), name⟩ :: named)

theorem naming_nameFrom (stem : String) (position : Nat) (taken : List String)
    (params : List Tree) : Naming taken params (nameFrom stem position taken params) := by
  induction params generalizing position taken with
  | nil => exact .nil
  | cons param params ih =>
    rw [nameFrom]
    split
    · next name isOwn => exact .own isOwn (ih _ _)
    · next nameless => exact .synthetic nameless (fresh_not_mem _ _) (ih _ _)

/-- Every entry has the name with which it is listed. -/
theorem Naming.isNamed (naming : Naming taken params named) {entry : Named}
    (member : entry ∈ named) : ownName? entry.pattern = some entry.name := by
  induction naming with
  | nil => cases member
  | own isOwn rest ih =>
    rcases List.mem_cons.1 member with rfl | member
    · exact isOwn
    · exact ih member
  | synthetic nameless untaken rest ih =>
    rcases List.mem_cons.1 member with rfl | member
    · exact ownName?_withName _ _
    · exact ih member

/-! ## Synthetic names -/

/-- The parameter at a place has no name of its own, and in the result it has this one. -/
def SyntheticAt (params result : List Tree) (place : Nat) (name : String) : Prop :=
  ∃ param, params[place]? = some param ∧ ownName? (required param) = none ∧
    result[place]? = some (withName name (required param))

theorem syntheticAt_zero {param entry : Tree} {result : List Tree} :
    SyntheticAt (param :: params) (entry :: result) 0 name ↔
      ownName? (required param) = none ∧ entry = withName name (required param) := by
  simp [SyntheticAt]

theorem withName_inj {pattern : Tree} {name name' : String}
    (h : withName name pattern = withName name' pattern) : name = name' := by
  have names := congrArg ownName? h
  rw [ownName?_withName, ownName?_withName] at names
  exact Option.some.inj names

theorem not_syntheticAt_zero {param entry : Tree} {result : List Tree} {own : String}
    (isOwn : ownName? (required param) = some own) :
    ¬ SyntheticAt (param :: params) (entry :: result) 0 name := by
  intro isSynthetic
  rw [(syntheticAt_zero.1 isSynthetic).1] at isOwn
  cases isOwn

/-- A parameter without a name gets one. -/
theorem Naming.exists_syntheticAt (naming : Naming taken params named) {param : Tree}
    (isParam : params[place]? = some param) (nameless : ownName? (required param) = none) :
    ∃ name, SyntheticAt params (named.map Named.pattern) place name := by
  induction naming generalizing place with
  | nil => cases isParam
  | own isOwn rest ih =>
    cases place with
    | zero =>
      cases isParam
      rw [nameless] at isOwn
      cases isOwn
    | succ place => exact ih isParam
  | @synthetic _ _ _ name _ nameless' untaken rest ih =>
    cases place with
    | zero => exact ⟨name, syntheticAt_zero.2 ⟨nameless', rfl⟩⟩
    | succ place => exact ih isParam

/-- A parameter with a name stays as it is. -/
theorem Naming.getElem?_own (naming : Naming taken params named) {param : Tree}
    (isParam : params[place]? = some param) (isOwn : ownName? (required param) = some name) :
    (named.map Named.pattern)[place]? = some (required param) := by
  induction naming generalizing place with
  | nil => cases isParam
  | own isOwn' rest ih =>
    cases place with
    | zero =>
      cases isParam
      rfl
    | succ place => exact ih isParam
  | synthetic nameless untaken rest ih =>
    cases place with
    | zero =>
      cases isParam
      rw [isOwn] at nameless
      cases nameless
    | succ place => exact ih isParam

/-- Where a name is synthetic, the entry is listed with it. -/
theorem Naming.exists_of_syntheticAt (naming : Naming taken params named)
    (isSynthetic : SyntheticAt params (named.map Named.pattern) place name) :
    ∃ entry, named[place]? = some entry ∧ entry.name = name := by
  obtain ⟨param, -, -, isEntry⟩ := isSynthetic
  rw [List.getElem?_map, Option.map_eq_some_iff] at isEntry
  obtain ⟨entry, listed, same⟩ := isEntry
  have isNamed := naming.isNamed (List.mem_of_getElem? listed)
  rw [same, ownName?_withName] at isNamed
  exact ⟨entry, listed, (Option.some.inj isNamed).symm⟩

theorem Naming.not_mem_taken (naming : Naming taken params named)
    (isSynthetic : SyntheticAt params (named.map Named.pattern) place name) : name ∉ taken := by
  induction naming generalizing place with
  | nil =>
    obtain ⟨_, isParam, -⟩ := isSynthetic
    cases isParam
  | own isOwn rest ih =>
    cases place with
    | zero => exact absurd isSynthetic (not_syntheticAt_zero isOwn)
    | succ place => exact ih isSynthetic
  | synthetic nameless untaken rest ih =>
    cases place with
    | zero =>
      rw [← withName_inj (syntheticAt_zero.1 isSynthetic).2]
      exact untaken
    | succ place => exact fun member => ih isSynthetic (List.mem_cons_of_mem _ member)

/-- No two parameters get the same synthetic name: the first is taken when the second is made up. -/
theorem Naming.syntheticAt_unique (naming : Naming taken params named) {place' : Nat}
    (first : SyntheticAt params (named.map Named.pattern) place name)
    (second : SyntheticAt params (named.map Named.pattern) place' name) : place = place' := by
  induction naming generalizing place place' with
  | nil =>
    obtain ⟨_, isParam, -⟩ := first
    cases isParam
  | own isOwn rest ih =>
    cases place with
    | zero => exact absurd first (not_syntheticAt_zero isOwn)
    | succ place =>
      cases place' with
      | zero => exact absurd second (not_syntheticAt_zero isOwn)
      | succ place' => exact congrArg (· + 1) (ih first second)
  | @synthetic taken param params made named nameless untaken rest ih =>
    have later : ∀ {place}, SyntheticAt params (named.map Named.pattern) place name →
        made ≠ name := by
      rintro place isSynthetic rfl
      exact rest.not_mem_taken isSynthetic List.mem_cons_self
    cases place with
    | zero =>
      have isMade := withName_inj (syntheticAt_zero.1 first).2
      cases place' with
      | zero => rfl
      | succ place' => exact absurd isMade (later second)
    | succ place =>
      cases place' with
      | zero => exact absurd (withName_inj (syntheticAt_zero.1 second).2) (later first)
      | succ place' => exact congrArg (· + 1) (ih first second)

/-! ## Matching, with names and without -/

/-- If a pattern with a synthetic name matches, it does without, and the name can be bound then. -/
theorem exists_of_matchValue_withName {t : Tree} {value : Value} {env env' : Env}
    (h : matchValue (withName name t) value env = .ok (true, env')) :
    ∃ env₁, matchValue t value env = .ok (true, env₁) ∧
      bindName name value env₁ = (true, env') := by
  cases t with
  | wildcard => exact ⟨env, rfl, Except.ok.inj h⟩
  | _ =>
    change matchValue (.alias _ name) value env = _ at h
    exact matchValue_alias_eq_ok h

/-- **Naming parameters adds no matches.**  If the named parameters match, so do the parameters
themselves, in every environment that agrees on the names that they bind. -/
theorem Naming.matchAll_of_named (naming : Naming taken params named) {args : List Value}
    {env₁ env₂ env₂' : Env} (within : ∀ p ∈ params, bindings p ⊆ names) (isTaken : names ⊆ taken)
    (agree : Env.AgreeOn names env₁ env₂) (bindsOnly : Env.BindsOnly taken env₂)
    (h : matchAll (named.map Named.pattern) args env₂ = .ok (true, env₂')) :
    ∃ env₁', matchAll params args env₁ = .ok (true, env₁') := by
  induction naming generalizing args env₁ env₂ with
  | nil => exact ⟨env₁, rfl⟩
  | @own taken param params own named isOwn rest ih =>
    cases args with
    | nil => exact ⟨env₁, rfl⟩
    | cons arg args =>
      obtain ⟨e₂, first, others⟩ := matchAll_cons_eq_ok h
      have inNames := List.Subset.trans (bindings_required_sublist param).subset
        (within param List.mem_cons_self)
      obtain ⟨e₁, first', agree'⟩ := matchValue_agree inNames agree.symm first
      obtain ⟨env₁', others'⟩ := ih (fun p member => within p (List.mem_cons_of_mem param member))
        isTaken agree'.symm (bindsOnly.grows (matchValue_grows inNames first) isTaken) others
      refine ⟨env₁', ?_⟩
      rw [matchAll_cons, ← matchValue_required, first']
      exact others'
  | @synthetic taken param params made named nameless untaken rest ih =>
    cases args with
    | nil => exact ⟨env₁, rfl⟩
    | cons arg args =>
      obtain ⟨e₂', named₂, others⟩ := matchAll_cons_eq_ok h
      obtain ⟨e₂, first, bound⟩ := exists_of_matchValue_withName named₂
      have inNames := List.Subset.trans (bindings_required_sublist param).subset
        (within param List.mem_cons_self)
      obtain ⟨e₁, first', agree'⟩ := matchValue_agree inNames agree.symm first
      have bindsOnly' := bindsOnly.grows (matchValue_grows inNames first) isTaken
      -- The synthetic name was not taken, so it is bound now, and no name of a pattern.
      rw [bindName_of_unbound (bindsOnly' made untaken)] at bound
      cases bound
      obtain ⟨env₁', others'⟩ := ih (fun p member => within p (List.mem_cons_of_mem param member))
        (List.Subset.trans isTaken (List.subset_cons_self _ _))
        (agree'.symm.insert (fun member => untaken (isTaken member)) arg)
        (bindsOnly'.insert made arg) others
      refine ⟨env₁', ?_⟩
      rw [matchAll_cons, ← matchValue_required, first']
      exact others'

/-! ## Normal forms -/

/-- What is wanted of the normalized list of parameters. -/
structure IsNormalForm (params guards result : List Tree) : Prop where
  /-- The result matches arguments exactly if the parameters do. -/
  succeeds_iff : ∀ args : List Value, (∃ env', matchAll result args ∅ = .ok (true, env')) ↔
    ∃ env, matchAll params args ∅ = .ok (true, env)
  /-- Then both bind the names of the parameters to the same values. -/
  agree : ∀ {args : List Value} {env env' : Env}, matchAll params args ∅ = .ok (true, env) →
    matchAll result args ∅ = .ok (true, env') → Env.AgreeOn (params.flatMap bindings) env env'
  /-- A synthetic name is bound to the argument at its place. -/
  holds : ∀ {args : List Value} {env' : Env} {place : Nat} {name : String} {arg : Value},
    matchAll result args ∅ = .ok (true, env') → SyntheticAt params result place name →
      args[place]? = some arg → env'.get? name = some arg
  /-- A synthetic name is made up once. -/
  distinct : ∀ {place place' : Nat} {name : String}, SyntheticAt params result place name →
    SyntheticAt params result place' name → place = place'
  /-- A synthetic name is not bound anywhere in the parameters. -/
  unbound : ∀ {place : Nat} {name : String}, SyntheticAt params result place name →
    name ∉ params.flatMap bindings
  /-- A synthetic name is not mentioned in a guard. -/
  unmentioned : ∀ {place : Nat} {name : String}, SyntheticAt params result place name →
    name ∉ guards.flatMap references
  /-- There are as many entries as parameters. -/
  length : result.length = params.length
  /-- A parameter with a name of its own stays, but for its fallback. -/
  own : ∀ {place : Nat} {param : Tree} {name : String}, params[place]? = some param →
    ownName? (required param) = some name → result[place]? = some (required param)
  /-- A parameter without one has a synthetic name. -/
  synthetic : ∀ {place : Nat} {param : Tree}, params[place]? = some param →
    ownName? (required param) = none → ∃ name, SyntheticAt params result place name
  /-- Every entry is a binding or an alias. -/
  named : ∀ entry ∈ result, (∃ name, entry = .binding name) ∨
    ∃ pattern name, entry = .alias pattern name
  /-- Normalizing the result gives nothing new, whatever the guards and the stem. -/
  stable : ∀ guards' stem', normalize result guards' stem' = result

theorem eq_of_ownName? {t : Tree} (isOwn : ownName? t = some name) :
    t = .binding name ∨ ∃ pattern, t = .alias pattern name := by
  cases t with
  | binding => exact .inl (congrArg _ (Option.some.inj isOwn))
  | «alias» pattern => exact .inr ⟨pattern, congrArg _ (Option.some.inj isOwn)⟩
  | _ => cases isOwn

theorem mem_bindings_of_ownName? {t : Tree} (isOwn : ownName? t = some name) :
    name ∈ bindings t := by
  rcases eq_of_ownName? isOwn with rfl | ⟨pattern, rfl⟩
  · exact mem_bindings_of_boundName rfl
  · exact mem_bindings_of_boundName rfl

/-- **Normalization.**  Normalized parameters match what the parameters match and bind what they
bind, each also holds its argument, and the names that were made up for this get in nobody's way. -/
theorem normalize_isNormalForm (params guards : List Tree) (stem : String) :
    IsNormalForm params guards (normalize params guards stem) := by
  have naming : Naming (takenNames params guards) params (nameParameters params guards stem) :=
    naming_nameFrom _ _ _ _
  have within : ∀ p ∈ params, bindings p ⊆ params.flatMap bindings :=
    fun p member x inside => List.mem_flatMap.2 ⟨p, member, inside⟩
  have isTaken : params.flatMap bindings ⊆ takenNames params guards :=
    List.subset_append_left _ _
  have untaken : ∀ {place name}, SyntheticAt params (normalize params guards stem) place name →
      name ∉ takenNames params guards := naming.not_mem_taken
  have converse : ∀ {args env'}, matchAll (normalize params guards stem) args ∅ = .ok (true, env') →
      ∃ env, matchAll params args ∅ = .ok (true, env) :=
    naming.matchAll_of_named within isTaken (fun _ _ => rfl) (fun _ _ => rfl)
  constructor
  case succeeds_iff =>
    intro args
    constructor
    · rintro ⟨env', named⟩
      exact converse named
    · rintro ⟨env, plain⟩
      obtain ⟨env', named, -⟩ := matchAll_normalize_passes guards stem plain
      exact ⟨env', named⟩
  case agree =>
    intro args env env' plain named
    obtain ⟨env'', named', agree, -⟩ := matchAll_normalize_passes guards stem plain
    rw [named] at named'
    cases named'
    exact agree
  case holds =>
    intro args env' place name arg named isSynthetic isArg
    obtain ⟨env, plain⟩ := converse named
    obtain ⟨env'', named', -, passes⟩ := matchAll_normalize_passes guards stem plain
    rw [named] at named'
    cases named'
    obtain ⟨entry, isEntry, isName⟩ := naming.exists_of_syntheticAt isSynthetic
    have pair : (entry, arg) ∈ (nameParameters params guards stem).zip args := by
      refine List.mem_iff_getElem?.2 ⟨place, ?_⟩
      rw [List.getElem?_zip_eq_some]
      exact ⟨isEntry, isArg⟩
    rcases passes entry arg pair with bound | ⟨p, pair', isOwn⟩
    · rw [← isName]
      exact bound
    · -- The name is no own name, since those are taken.
      have inParam := (bindings_required_sublist p).subset (mem_bindings_of_ownName? isOwn)
      rw [isName] at inParam
      exact absurd (isTaken (within p (List.of_mem_zip pair').1 inParam)) (untaken isSynthetic)
  case distinct => exact naming.syntheticAt_unique
  case unbound => exact fun isSynthetic member => untaken isSynthetic (isTaken member)
  case unmentioned =>
    exact fun isSynthetic member => untaken isSynthetic (List.mem_append_right _ member)
  case length => exact length_normalize _ _ _
  case own => exact naming.getElem?_own
  case synthetic => exact naming.exists_syntheticAt
  case named =>
    intro entry member
    obtain ⟨entry', listed, rfl⟩ := List.mem_map.1 member
    rcases eq_of_ownName? (naming.isNamed listed) with isBinding | ⟨pattern, isAlias⟩
    · exact .inl ⟨entry'.name, isBinding⟩
    · exact .inr ⟨pattern, entry'.name, isAlias⟩
  case stable =>
    exact fun guards' stem' => normalize_normalize params guards guards' stem stem'

/-- Parameters of all kinds: one binds a name like those made up, and `x` is bound twice. -/
def clashingParams : List Tree :=
  [.wildcard "_", .tuplePattern [.binding "arg_1", .listPattern [.alias (.binding "y") "z"]],
    .optional (.constant (.int 3)) (.literal (.int 3)), .binding "x", .alias (.binding "x") "w"]

/-- Arguments that they match; those for `x` are equal, but not the same. -/
def clashingArgs : List Value :=
  [.int 7, .tuple [.int 1, .list [.text "in"]], .int 3, .int 1, .bool true]

/-- What becomes of them if a guard mentions `arg_3`. -/
def clashingNormalForm : List Tree :=
  [.binding "arg_1_",
    .alias (.tuplePattern [.binding "arg_1", .listPattern [.alias (.binding "y") "z"]]) "arg_2",
    .alias (.constant (.int 3)) "arg_3_", .binding "x", .alias (.binding "x") "w"]

theorem normalize_clashing :
    normalize clashingParams [.var "arg_3"] "arg_" = clashingNormalForm ∧
      ∃ env env', matchAll clashingParams clashingArgs ∅ = .ok (true, env) ∧
        matchAll clashingNormalForm clashingArgs ∅ = .ok (true, env') ∧
        env'.get? "arg_1" = env.get? "arg_1" ∧ env'.get? "arg_1_" = some (.int 7) := by
  have evaluated : normalize clashingParams [.var "arg_3"] "arg_" = clashingNormalForm ∧
      matchAll clashingParams clashingArgs ∅ = .ok (true, Table.ofList
        [("arg_1", .int 1), ("y", .text "in"), ("z", .text "in"), ("x", .int 1),
          ("w", .bool true)]) := by
    cbv
  obtain ⟨isList, plain⟩ := evaluated
  have form := normalize_isNormalForm clashingParams [.var "arg_3"] "arg_"
  rw [isList] at form
  obtain ⟨env', named⟩ := (form.succeeds_iff clashingArgs).2 ⟨_, plain⟩
  have isSynthetic : SyntheticAt clashingParams clashingNormalForm 0 "arg_1_" :=
    ⟨_, rfl, rfl, rfl⟩
  refine ⟨isList, _, env', plain, named, form.agree plain named "arg_1" ?_, ?_⟩
  · decide
  · exact form.holds named isSynthetic rfl

end Tree

end Heredity
