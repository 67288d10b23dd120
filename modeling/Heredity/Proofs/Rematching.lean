import Mathlib
import Heredity.Proofs.Normalization
import Heredity.Proofs.Simulation

/-!
# Matching again what a forwarder passes on

A forwarder reads every argument back through a name, and the routine to which it passes them on
matches them a second time.  This file says what is passed on and when the second match gives what
the first one gave.

* `forwarded` — what is passed on for a parameter.
* `Repeatable` — each alias takes the value of its name as it took its argument.
* `forwarding_repeats_iff` — the second match has the bindings of the first exactly then.

**A name may hold an equal value.**  A name that is bound already matches what is equal to its
value, and `1 == true`.  So the value of an own name need not be the argument, although it equals
it.  A binding does not mind; the pattern of an alias may, since constants compare kinds.

**Environments that lead to the same end.**  Each match appends bindings, and the names of these
depend on the patterns alone.  So if two matches of a list end alike, they were alike all along
(`eq_of_extends`).
-/

namespace Heredity

/-! ## Environments that grow at the end -/

/-- The second environment is the first with more bindings after it. -/
def Env.Extends (env env' : Env) : Prop := env.entries <+: env'.entries

namespace Env

variable {env env' env'' : Env}

theorem Extends.refl (env : Env) : Extends env env := List.prefix_rfl

theorem Extends.trans (h : Extends env env') (h' : Extends env' env'') : Extends env env'' :=
  List.IsPrefix.trans h h'

theorem Extends.keeps {name : String} {value : Value} (h : Extends env env')
    (bound : env.get? name = some value) : env'.get? name = some value := by
  obtain ⟨added, appended⟩ := h
  unfold Table.get? Table.find? at bound ⊢
  obtain ⟨entry, found, isValue⟩ := Option.map_eq_some_iff.1 bound
  rw [← appended, List.find?_append, found, Option.some_or, Option.map_some, isValue]

/-- With the same names bound, there is one environment that leads to an end. -/
theorem eq_of_extends {final : Env} (h : Extends env final) (h' : Extends env' final)
    (keys : env.keys = env'.keys) : env = env' := by
  have lengths : env.entries.length = env'.entries.length := by
    simpa [Table.keys] using congrArg List.length keys
  exact Table.ext ((List.prefix_of_prefix_length_le h h' lengths.le).eq_of_length lengths)

end Env

namespace Tree

variable {env env' final : Env} {name : String} {value value' arg : Value}

theorem bindName_extends (name : String) (value : Value) (env : Env) :
    Env.Extends env (bindName name value env).2 := by
  unfold bindName
  cases free : env.get? name with
  | some bound => exact .refl env
  | none =>
    have absent := (Table.get?_eq_none_iff env name).1 free
    exact ⟨[(name, value)], (Table.insert_of_not_contains absent value).symm⟩

theorem matchValue_extends {t : Tree} {matched : Bool}
    (h : matchValue t value env = .ok (matched, env')) : Env.Extends env env' :=
  matchValue_preserves .refl .trans (fun name _ value env => bindName_extends name value env) h

theorem matchAll_extends {patterns : List Tree} {values : List Value} {matched : Bool}
    (h : matchAll patterns values env = .ok (matched, env')) : Env.Extends env env' :=
  matchAll_preserves .refl .trans (fun _ _ => matchValue_extends) h

/-! ## What is bound after a match

Which names are bound after a match that succeeds depends on the pattern and on the names that were
bound before, not on the values. -/

theorem bindName_keys (name : String) (value value' : Value) (keys : env.keys = env'.keys) :
    (bindName name value env).2.keys = (bindName name value' env').2.keys := by
  have contains : env.contains name = env'.contains name := by
    rw [Bool.eq_iff_iff, Table.contains_iff_exists_key, Table.contains_iff_exists_key, keys]
  unfold bindName
  cases free : env.get? name with
  | some bound =>
    have present' : env'.contains name = true := by
      rw [← contains, ← Table.get?_isSome, free, Option.isSome_some]
    obtain ⟨bound', found'⟩ := Table.contains_iff_exists_get?.1 present'
    rw [found']
    exact keys
  | none =>
    have absent := (Table.get?_eq_none_iff env name).1 free
    have absent' := contains ▸ absent
    rw [(Table.get?_eq_none_iff env' name).2 absent']
    rw [Table.keys_insert_of_not_contains absent, Table.keys_insert_of_not_contains absent', keys]

theorem matchAll_keys {patterns : List Tree}
    (each : ∀ t ∈ patterns, ∀ {value value' : Value} {env₁ env₂ env₁' env₂' : Env},
      matchValue t value env₁ = .ok (true, env₁') → matchValue t value' env₂ = .ok (true, env₂') →
        env₁.keys = env₂.keys → env₁'.keys = env₂'.keys)
    {values values' : List Value} {env₁ env₂ env₁' env₂' : Env}
    (length : values.length = patterns.length) (length' : values'.length = patterns.length)
    (h : matchAll patterns values env₁ = .ok (true, env₁'))
    (h' : matchAll patterns values' env₂ = .ok (true, env₂')) (keys : env₁.keys = env₂.keys) :
    env₁'.keys = env₂'.keys := by
  induction patterns generalizing values values' env₁ env₂ with
  | nil =>
    cases h
    cases h'
    exact keys
  | cons t patterns ih =>
    obtain ⟨value, values, rfl⟩ := List.exists_cons_of_length_eq_add_one length
    obtain ⟨value', values', rfl⟩ := List.exists_cons_of_length_eq_add_one length'
    obtain ⟨e₁, first, rest⟩ := matchAll_cons_eq_ok h
    obtain ⟨e₂, first', rest'⟩ := matchAll_cons_eq_ok h'
    exact ih (fun c hc => each c (List.mem_cons_of_mem t hc)) (Nat.succ.inj length)
      (Nat.succ.inj length') rest rest' (each t List.mem_cons_self first first' keys)

theorem matchValue_keys {t : Tree} {env₁ env₂ env₁' env₂' : Env}
    (h : matchValue t value env₁ = .ok (true, env₁'))
    (h' : matchValue t value' env₂ = .ok (true, env₂')) (keys : env₁.keys = env₂.keys) :
    env₁'.keys = env₂'.keys := by
  induction t using induct generalizing value value' env₁ env₂ env₁' env₂' with
  | step t ih =>
    cases t with
    | binding name =>
      have bound : bindName name value env₁ = (true, env₁') := Except.ok.inj h
      have bound' : bindName name value' env₂ = (true, env₂') := Except.ok.inj h'
      have same := bindName_keys name value value' keys
      rw [bound, bound'] at same
      exact same
    | wildcard =>
      cases h
      cases h'
      exact keys
    | constant expected =>
      have same : env₁ = env₁' := congrArg Prod.snd (Except.ok.inj h)
      have same' : env₂ = env₂' := congrArg Prod.snd (Except.ok.inj h')
      rw [← same, ← same']
      exact keys
    | tuplePattern items | listPattern items =>
      -- Both values have the right kind and length.
      unfold matchValue at h h'
      split at h
      · split at h
        · next length =>
          split at h'
          · split at h'
            · next length' => exact matchAll_keys ih length length' h h' keys
            · cases h'
          · cases h'
        · cases h
      · cases h
    | «alias» pattern name =>
      obtain ⟨e₁, first, bound⟩ := matchValue_alias_eq_ok h
      obtain ⟨e₂, first', bound'⟩ := matchValue_alias_eq_ok h'
      have same := bindName_keys name value value' (ih pattern List.mem_cons_self first first' keys)
      rw [bound, bound'] at same
      exact same
    | optional pattern fallback => exact ih pattern List.mem_cons_self h h' keys
    | _ => cases h

/-- **Matches that lead to the same end** agree already when they are done. -/
theorem eq_of_matchValue {t : Tree} {env₁ env₁' : Env}
    (h : matchValue t value env = .ok (true, env₁))
    (h' : matchValue t value' env = .ok (true, env₁')) (toEnd : Env.Extends env₁ final)
    (toEnd' : Env.Extends env₁' final) : env₁ = env₁' :=
  Env.eq_of_extends toEnd toEnd' (matchValue_keys h h' rfl)

/-! ## What a forwarder passes on -/

/-- What is passed on for a parameter: the value of its own name, or its argument. -/
def forwarded (final : Env) (param : Tree) (arg : Value) : Value :=
  match ownName? (required param) with
  | some name => (final.get? name).getD arg
  | none => arg

/-- What is passed on for a list of parameters. -/
def forwardedArgs (final : Env) (params : List Tree) (args : List Value) : List Value :=
  List.zipWith (forwarded final) params args

theorem forwarded_of_own {param : Tree} (isOwn : ownName? (required param) = some name)
    (bound : final.get? name = some value) : forwarded final param arg = value := by
  unfold forwarded
  rw [isOwn]
  simp only [bound, Option.getD_some]

theorem forwarded_of_nameless {param : Tree} (nameless : ownName? (required param) = none) :
    forwarded final param arg = arg := by
  rw [forwarded, nameless]

/-- Binding a name to the value that it holds afterwards does the same. -/
theorem bindName_again (h : bindName name arg env = (true, env'))
    (bound : env'.get? name = some value) : bindName name value env = (true, env') := by
  unfold bindName at h ⊢
  cases found : env.get? name with
  | some bound' =>
    rw [found] at h
    obtain ⟨equal, rfl⟩ := Prod.mk.inj h
    rw [found] at bound
    cases bound
    -- What equals anything equals itself.
    exact Prod.ext (Value.same_trans equal (Value.same_symm equal)) rfl
  | none =>
    rw [found] at h
    cases h
    rw [Env.get?_insert, if_pos rfl] at bound
    cases bound
    rfl

theorem exists_of_ownName {t : Tree} (isOwn : ownName? t = some name)
    (h : matchValue t arg env = .ok (true, env')) :
    ∃ value, env'.get? name = some value ∧ (value = arg ∨ value.same arg = true) := by
  rcases eq_of_ownName? isOwn with rfl | ⟨pattern, rfl⟩
  · exact exists_of_bindName (Except.ok.inj h)
  · obtain ⟨env₁, -, bound⟩ := matchValue_alias_eq_ok h
    exact exists_of_bindName bound

/-- After a match, the own name of a parameter holds its argument, or a value equal to it. -/
theorem get?_ownName_of_matchAll {params : List Tree} {args : List Value}
    (h : matchAll params args env = .ok (true, env')) {place : Nat} {param : Tree}
    (isParam : params[place]? = some param) (isArg : args[place]? = some arg)
    (isOwn : ownName? (required param) = some name) :
    ∃ value, env'.get? name = some value ∧ (value = arg ∨ value.same arg = true) := by
  induction params generalizing args env place with
  | nil => cases isParam
  | cons head params ih =>
    cases args with
    | nil => cases isArg
    | cons first args =>
      obtain ⟨env₁, matched, rest⟩ := matchAll_cons_eq_ok h
      cases place with
      | zero =>
        cases isParam
        cases isArg
        rw [← matchValue_required] at matched
        obtain ⟨value, bound, equal⟩ := exists_of_ownName isOwn matched
        exact ⟨value, (matchAll_extends rest).keeps bound, equal⟩
      | succ place => exact ih rest isParam isArg

/-- What is passed on for a parameter is its argument, or a value equal to it. -/
theorem forwarded_same {params : List Tree} {args : List Value}
    (h : matchAll params args env = .ok (true, final)) {place : Nat} {param : Tree}
    (isParam : params[place]? = some param) (isArg : args[place]? = some arg) :
    forwarded final param arg = arg ∨ (forwarded final param arg).same arg = true := by
  cases own : ownName? (required param) with
  | none => exact .inl (forwarded_of_nameless own)
  | some name =>
    obtain ⟨value, bound, equal⟩ := get?_ownName_of_matchAll h isParam isArg own
    rw [forwarded_of_own own bound]
    exact equal

theorem length_forwardedArgs {params : List Tree} {args : List Value}
    (length : args.length = params.length) :
    (forwardedArgs final params args).length = params.length := by
  rw [forwardedArgs, List.length_zipWith, length, Nat.min_self]

theorem getElem?_forwardedArgs {params : List Tree} {args : List Value} {place : Nat} {param : Tree}
    (isParam : params[place]? = some param) (isArg : args[place]? = some arg) :
    (forwardedArgs final params args)[place]? = some (forwarded final param arg) := by
  rw [forwardedArgs, List.getElem?_zipWith, isParam, isArg]

/-! ## Matching a second time -/

/-- In its turn, the pattern of each alias does with the value of its name what it does with its
argument. -/
def Repeatable (params : List Tree) (args : List Value) (start final : Env) : Prop :=
  ∀ {place : Nat} {pattern : Tree} {name : String} {arg value : Value} {env : Env},
    params[place]?.map required = some (.alias pattern name) → args[place]? = some arg →
      matchAll (params.take place) (args.take place) start = .ok (true, env) →
        final.get? name = some value → matchValue pattern value env = matchValue pattern arg env

theorem repeatable_cons {param : Tree} {params : List Tree} {args : List Value}
    (first : matchValue param arg env = .ok (true, env')) :
    Repeatable (param :: params) (arg :: args) env final ↔
      (∀ pattern name value, required param = .alias pattern name →
        final.get? name = some value → matchValue pattern value env = matchValue pattern arg env) ∧
      Repeatable params args env' final := by
  constructor
  · intro repeatable
    refine ⟨fun pattern name value isAlias bound => ?_, ?_⟩
    · have isParam : (param :: params)[0]?.map required = some (.alias pattern name) :=
        congrArg some isAlias
      exact repeatable isParam rfl rfl bound
    · intro place pattern name arg' value env₁ isParam isArg before bound
      have before' : matchAll ((param :: params).take (place + 1))
          ((arg :: args).take (place + 1)) env = .ok (true, env₁) := by
        rw [List.take_succ_cons, List.take_succ_cons, matchAll_cons, first]
        exact before
      have isParam' : (param :: params)[place + 1]?.map required = some (.alias pattern name) :=
        isParam
      exact repeatable isParam' isArg before' bound
  · rintro ⟨head, rest⟩ place pattern name arg' value env₁ isParam isArg before bound
    cases place with
    | zero =>
      cases isArg
      cases before
      exact head pattern name value (Option.some.inj isParam) bound
    | succ place =>
      rw [List.take_succ_cons, List.take_succ_cons, matchAll_cons, first] at before
      exact rest isParam isArg before bound

/-- A parameter takes what is passed on for it as it took its argument, unless it is an alias whose
pattern does not. -/
theorem matchValue_forwarded_iff {param : Tree}
    (first : matchValue param arg env = .ok (true, env')) (toEnd : Env.Extends env' final) :
    matchValue param (forwarded final param arg) env = .ok (true, env') ↔
      ∀ pattern name value, required param = .alias pattern name →
        final.get? name = some value →
          matchValue pattern value env = matchValue pattern arg env := by
  rw [← matchValue_required] at first ⊢
  cases own : ownName? (required param) with
  | none =>
    rw [forwarded_of_nameless own]
    refine ⟨fun _ pattern name value isAlias => ?_, fun _ => first⟩
    rw [isAlias] at own
    cases own
  | some name =>
    obtain ⟨value, bound, -⟩ := exists_of_ownName own first
    have held := toEnd.keeps bound
    rw [forwarded_of_own own held]
    rcases eq_of_ownName? own with isBinding | ⟨pattern, isAlias⟩
    · rw [isBinding] at first ⊢
      constructor
      · intro _ pattern name' value' isAlias
        cases isAlias
      · exact fun _ => congrArg Except.ok (bindName_again (Except.ok.inj first) bound)
    · rw [isAlias] at first ⊢
      obtain ⟨env₁, inner, named⟩ := matchValue_alias_eq_ok first
      constructor
      · intro again pattern' name' value' same held'
        cases same
        rw [held] at held'
        cases held'
        obtain ⟨env₂, inner', named'⟩ := matchValue_alias_eq_ok again
        -- Both end in `env'`, to which at most the name is added.
        have toName := congrArg Prod.snd named ▸ bindName_extends name arg env₁
        have toName' := congrArg Prod.snd named' ▸ bindName_extends name value env₂
        rw [inner, inner', eq_of_matchValue inner inner' toName toName']
      · intro same
        rw [matchValue_alias, same pattern name value rfl held, inner]
        exact congrArg Except.ok (bindName_again named bound)

/-- **The second match** of parameters ends as the first did exactly if it can be repeated alias by
alias. -/
theorem matchAll_forwardedArgs_iff {params : List Tree} {args : List Value}
    (length : args.length = params.length) (h : matchAll params args env = .ok (true, final)) :
    matchAll params (forwardedArgs final params args) env = .ok (true, final) ↔
      Repeatable params args env final := by
  induction params generalizing args env with
  | nil =>
    have repeatable : Repeatable [] args env final := by
      intro place pattern name arg value env₁ isParam
      cases isParam
    exact ⟨fun _ => repeatable, fun _ => h⟩
  | cons param params ih =>
    obtain ⟨arg, args, rfl⟩ := List.exists_cons_of_length_eq_add_one length
    obtain ⟨env₁, first, rest⟩ := matchAll_cons_eq_ok h
    rw [repeatable_cons first, ← ih (Nat.succ.inj length) rest,
      ← matchValue_forwarded_iff first (matchAll_extends rest)]
    change matchAll (param :: params)
      (forwarded final param arg :: forwardedArgs final params args) env = _ ↔ _
    constructor
    · intro again
      obtain ⟨env₁', first', rest'⟩ := matchAll_cons_eq_ok again
      cases eq_of_matchValue first first' (matchAll_extends rest) (matchAll_extends rest')
      exact ⟨first', rest'⟩
    · rintro ⟨first', rest'⟩
      rw [matchAll_cons, first']
      exact rest'

/-! ## Forwarding -/

/-- The variables of a forwarder have the values that are said to be passed on. -/
theorem forall₂_forward {params guards : List Tree} {stem : String} {args : List Value}
    (length : args.length = params.length) (plain : matchAll params args ∅ = .ok (true, env))
    (normal : matchAll (normalize params guards stem) args ∅ = .ok (true, env')) :
    List.Forall₂ (fun t value => ∃ x, t = .var x ∧ env'.get? x = some value)
      (forward params guards stem) (forwardedArgs env params args) := by
  have form := normalize_isNormalForm params guards stem
  have naming : Naming (takenNames params guards) params (nameParameters params guards stem) :=
    naming_nameFrom _ _ _ _
  rw [List.forall₂_iff_zip, length_forward, length_forwardedArgs length]
  refine ⟨rfl, fun {t value} pair => ?_⟩
  obtain ⟨place, isPair⟩ := List.mem_iff_getElem?.1 pair
  obtain ⟨isVar, isValue⟩ := List.getElem?_zip_eq_some.1 isPair
  rw [forward, List.getElem?_map, Option.map_eq_some_iff] at isVar
  obtain ⟨entry, isEntry, rfl⟩ := isVar
  obtain ⟨param, arg, isParam, isArg, rfl⟩ := List.getElem?_zipWith_eq_some.1 isValue
  refine ⟨entry.name, rfl, ?_⟩
  cases own : ownName? (required param) with
  | none =>
    obtain ⟨name, isSynthetic⟩ := form.synthetic isParam own
    obtain ⟨entry', isEntry', isName⟩ := naming.exists_of_syntheticAt isSynthetic
    cases isEntry.symm.trans isEntry'
    rw [isName, forwarded_of_nameless own]
    exact form.holds normal isSynthetic isArg
  | some name =>
    obtain ⟨value, bound, -⟩ := get?_ownName_of_matchAll plain isParam isArg own
    have kept := form.own isParam own
    rw [normalize, List.getElem?_map, isEntry, Option.map_some, Option.some.injEq] at kept
    have isName := naming.isNamed (List.mem_of_getElem? isEntry)
    rw [kept, own, Option.some.injEq] at isName
    have inParams : name ∈ params.flatMap bindings := by
      refine List.mem_flatMap.2 ⟨param, List.mem_of_getElem? isParam, ?_⟩
      exact (bindings_required_sublist param).subset (mem_bindings_of_ownName? own)
    rw [← isName, forwarded_of_own own bound, form.agree plain normal name inParams, bound]

/-- **Forwarding.**  If parameters match arguments, one for each, then the normalized ones match them,
and the variables of a forwarder have the values of the own names, or the arguments where there is
none.  Each equals its argument.  The parameters match them with the same bindings exactly if the
patterns of aliases do with what is passed on what they do with their arguments; so they do if the
name of each alias holds its argument. -/
theorem forwarding_repeats_iff {params : List Tree} {args : List Value} {env : Env}
    (guards : List Tree) (stem : String) (length : args.length = params.length)
    (plain : matchAll params args ∅ = .ok (true, env)) :
    ∃ env' vars, matchAll (normalize params guards stem) args ∅ = .ok (true, env') ∧
      forwardingArguments (normalize params guards stem) = .ok vars ∧
      (∀ (p : Program) (depth : Nat) (unit : String),
        vars.mapM (fun t => p.eval (depth + 1) t env' unit) =
          .ok (forwardedArgs env params args)) ∧
      (∀ (place : Nat) param arg, params[place]? = some param → args[place]? = some arg →
        (forwardedArgs env params args)[place]? = some (forwarded env param arg) ∧
        (forwarded env param arg = arg ∨ (forwarded env param arg).same arg = true)) ∧
      (matchAll params (forwardedArgs env params args) ∅ = .ok (true, env) ↔
        Repeatable params args ∅ env) ∧
      ((∀ (place : Nat) pattern name arg, params[place]?.map required = some (.alias pattern name) →
          args[place]? = some arg → env.get? name = some arg) →
        matchAll params (forwardedArgs env params args) ∅ = .ok (true, env)) := by
  obtain ⟨env', normal⟩ := ((normalize_isNormalForm params guards stem).succeeds_iff args).2
    ⟨env, plain⟩
  have second := matchAll_forwardedArgs_iff length plain
  refine ⟨env', _, normal, forwardingArguments_normalize params guards stem, ?_, ?_, second, ?_⟩
  · exact fun p depth unit => Program.mapM_eval_vars depth (forall₂_forward length plain normal)
  · exact fun place param arg isParam isArg =>
      ⟨getElem?_forwardedArgs isParam isArg, forwarded_same plain isParam isArg⟩
  · intro held
    refine second.2 fun isAlias isArg _ bound => ?_
    rw [held _ _ _ _ isAlias isArg, Option.some.injEq] at bound
    rw [bound]

/-- Two of three parameters bind `x`. -/
def repeatedParams : List Tree := [.binding "x", .binding "x", .alias (.binding "y") "z"]

/-- The arguments for `x` are equal, but of different kinds. -/
def repeatedArgs : List Value := [.int 1, .bool true, .text "in"]

/-- What they bind. -/
def repeatedEnv : Env := .ofList [("x", .int 1), ("y", .text "in"), ("z", .text "in")]

theorem forwarding_repeats_repeatedParams :
    matchAll repeatedParams repeatedArgs ∅ = .ok (true, repeatedEnv) ∧
      forwardedArgs repeatedEnv repeatedParams repeatedArgs = [.int 1, .int 1, .text "in"] ∧
      matchAll repeatedParams [.int 1, .int 1, .text "in"] ∅ = .ok (true, repeatedEnv) := by
  have evaluated : matchAll repeatedParams repeatedArgs ∅ = .ok (true, repeatedEnv) ∧
      forwardedArgs repeatedEnv repeatedParams repeatedArgs =
        [.int 1, .int 1, .text "in"] := by
    constructor
    all_goals cbv
  obtain ⟨plain, passed⟩ := evaluated
  obtain ⟨-, -, -, -, -, -, -, held⟩ := forwarding_repeats_iff [] "arg_" rfl plain
  rw [passed] at held
  refine ⟨plain, passed, held fun place pattern name arg isAlias isArg => ?_⟩
  -- The only alias is the last parameter.
  rcases place with _ | _ | _ | place
  · cases isAlias
  · cases isAlias
  · cases isAlias
    cases isArg
    rfl
  · cases isAlias

/-- The second `x` must be `true`. -/
def pickyParams : List Tree := [.binding "x", .alias (.constant (.bool true)) "x"]

/-- `1` is passed on for the second `x` all the same, and the second match fails. -/
theorem forwarding_fails :
    ∃ env env', matchAll pickyParams [.int 1, .bool true] ∅ = .ok (true, env) ∧
      matchAll (normalize pickyParams [] "arg_") [.int 1, .bool true] ∅ = .ok (true, env') ∧
      (forward pickyParams [] "arg_").mapM (fun t => (∅ : Program).eval 1 t env' "unit") =
        .ok [.int 1, .int 1] ∧
      ∀ env'', matchAll pickyParams [.int 1, .int 1] ∅ ≠ .ok (true, env'') := by
  have evaluated : matchAll pickyParams [.int 1, .bool true] ∅ =
        .ok (true, Table.ofList [("x", .int 1)]) ∧
      matchAll (normalize pickyParams [] "arg_") [.int 1, .bool true] ∅ =
        .ok (true, Table.ofList [("x", .int 1)]) ∧
      (forward pickyParams [] "arg_").mapM
        (fun t => (∅ : Program).eval 1 t (Table.ofList [("x", .int 1)]) "unit") =
          .ok [.int 1, .int 1] ∧
      matchAll pickyParams [.int 1, .int 1] ∅ = .ok (false, Table.ofList [("x", .int 1)]) := by
    refine ⟨?_, ?_, ?_, ?_⟩
    all_goals cbv
  obtain ⟨plain, normal, passed, again⟩ := evaluated
  refine ⟨_, _, plain, normal, passed, fun env'' isMatch => ?_⟩
  rw [again] at isMatch
  cases isMatch

end Tree

end Heredity
