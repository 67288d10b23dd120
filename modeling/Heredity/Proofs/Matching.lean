import Mathlib.Data.List.Forall2
import Heredity.Matching
import Heredity.Proofs.Inheritance
import Heredity.Proofs.Parameters

/-!
# Matching and normalized parameters

An inherited routine has the normalized parameters of the original.  This file proves that they
match the same arguments, bind the same names to the same values, and pass the arguments on.

* `Env.Grows`, `Env.AgreeOn` — how environments compare before and after a match, and how the
  environments of two matches compare.
* `Named.Passes` — what the name of a normalized parameter is for.
* `matchValue_preserves` — what single bindings do to an environment, a match does.
* `matchValue_grows`, `matchValue_agree` — a match binds only names of its pattern, and it depends
  on no other names.
* `matchAll_nameFrom` — what naming parameters does to a match.
* `get?_of_ownName` — if no name is bound twice, a name of a parameter's own holds its argument.
* `matchAll_normalize` — the two facts together.

**Two environments, one set of names.**  While the normalized list is matched, the environment also
holds synthetic names.  They differ from all names that the parameters bind, so it agrees with the
environment of the other match on those names, whatever happens to the rest.
-/

namespace Heredity

/-! ## Comparing environments -/

/-- The second environment keeps the bindings of the first, and binds nothing else but names of a
list. -/
def Env.Grows (names : List String) (env env' : Env) : Prop :=
  ∀ name, env'.get? name = env.get? name ∨ (name ∈ names ∧ env.get? name = none)

/-- Two environments hold the same at names of a list. -/
def Env.AgreeOn (names : List String) (env env' : Env) : Prop :=
  ∀ name ∈ names, env'.get? name = env.get? name

/-- Nothing is bound but names of a list. -/
def Env.BindsOnly (names : List String) (env : Env) : Prop :=
  ∀ name, name ∉ names → env.get? name = none

namespace Env

variable {names : List String} {env env' env'' : Env} {name : String} {value : Value}

theorem Grows.refl : Grows names env env := fun _ => .inl rfl

theorem Grows.trans (h : Grows names env env') (h' : Grows names env' env'') :
    Grows names env env'' := by
  intro name
  rcases h' name with same' | ⟨member, unbound⟩
  · rw [same']
    exact h name
  · rcases h name with same | new
    · exact .inr ⟨member, same ▸ unbound⟩
    · exact .inr new

theorem Grows.keeps (h : Grows names env env') (bound : env.get? name = some value) :
    env'.get? name = some value := by
  rcases h name with same | ⟨-, unbound⟩
  · rw [same, bound]
  · rw [bound] at unbound
    cases unbound

theorem Grows.of_not_mem (h : Grows names env env') (other : name ∉ names) :
    env'.get? name = env.get? name :=
  (h name).resolve_right fun new => other new.1

/-- What is bound in a grown environment was bound before, or is one of the names. -/
theorem Grows.mem_of_bound (h : Grows names env env') (unbound : env.get? name = none)
    (bound : env'.get? name = some value) : name ∈ names := by
  by_contra other
  rw [h.of_not_mem other, unbound] at bound
  cases bound

theorem get?_insert (env : Env) (name : String) (value : Value) (other : String) :
    Table.get? (env.insert name value) other =
      if name = other then some value else env.get? other := by
  rw [Table.get?_insert]
  simp

theorem get?_insert_of_ne {other : String} (h : name ≠ other) :
    Table.get? (env.insert name value) other = env.get? other := by
  rw [get?_insert, if_neg h]

/-- An environment that binds another name still agrees. -/
theorem AgreeOn.insert (h : AgreeOn names env env') (other : name ∉ names) (value : Value) :
    AgreeOn names env (env'.insert name value) := by
  intro x isName
  have differs : name ≠ x := by
    rintro rfl
    exact other isName
  rw [get?_insert_of_ne differs]
  exact h x isName

theorem BindsOnly.grows {taken : List String} (h : BindsOnly taken env)
    (grows : Grows names env env') (isTaken : names ⊆ taken) : BindsOnly taken env' := by
  intro x untaken
  rw [grows.of_not_mem fun member => untaken (isTaken member)]
  exact h x untaken

theorem BindsOnly.insert (h : BindsOnly names env) (name : String) (value : Value) :
    BindsOnly (name :: names) (env.insert name value) := by
  intro x outside
  rw [List.mem_cons, not_or] at outside
  rw [get?_insert_of_ne (Ne.symm outside.1)]
  exact h x outside.2

end Env

namespace Tree

variable {names : List String} {env env' : Env} {name : String} {value : Value}

theorem bindName_grows (member : name ∈ names) :
    Env.Grows names env (bindName name value env).2 := by
  unfold bindName
  split
  · exact .refl
  · next unbound =>
    intro other
    by_cases same : name = other
    · subst same
      exact .inr ⟨member, unbound⟩
    · exact .inl (Env.get?_insert_of_ne same)

/-- Binding a name depends on what is bound to it only. -/
theorem bindName_agree (value : Value) (member : name ∈ names)
    (agree : Env.AgreeOn names env env') :
    (bindName name value env').1 = (bindName name value env).1 ∧
      Env.AgreeOn names (bindName name value env).2 (bindName name value env').2 := by
  unfold bindName
  rw [agree name member]
  cases env.get? name with
  | some bound => exact ⟨rfl, agree⟩
  | none =>
    refine ⟨rfl, fun other isName => ?_⟩
    rw [Env.get?_insert, Env.get?_insert, agree other isName]

theorem bindName_of_unbound (unbound : env.get? name = none) :
    bindName name value env = (true, env.insert name value) := by
  unfold bindName
  rw [unbound]

/-- A name that could be bound to a value holds it, or a value equal to it. -/
theorem exists_of_bindName (h : bindName name value env = (true, env')) :
    ∃ held, env'.get? name = some held ∧ (held = value ∨ held.same value = true) := by
  unfold bindName at h
  cases found : env.get? name with
  | some bound =>
    rw [found] at h
    obtain ⟨equal, rfl⟩ := Prod.mk.inj h
    exact ⟨bound, found, .inr equal⟩
  | none =>
    rw [found] at h
    cases h
    exact ⟨value, by rw [Env.get?_insert, if_pos rfl], .inl rfl⟩

/-! ## What a match binds and depends on -/

/-- The names that a tree binds are that of the node and those of its parts. -/
theorem bindings_eq (t : Tree) :
    bindings t = t.boundName?.toList ++ t.children.flatMap bindings := by
  rw [bindings, walk_eq, List.filterMap_cons]
  cases t.boundName? with
  | none => exact List.filterMap_flatMap
  | some name => exact congrArg (name :: ·) List.filterMap_flatMap

theorem bindings_subset_of_mem_children {t c : Tree} (h : c ∈ t.children) :
    bindings c ⊆ bindings t := by
  intro name member
  rw [bindings_eq t]
  exact List.mem_append_right _ (List.mem_flatMap.2 ⟨c, h, member⟩)

theorem mem_bindings_of_boundName {t : Tree} (h : t.boundName? = some name) :
    name ∈ bindings t := by
  rw [bindings_eq, h]
  exact List.mem_append_left _ List.mem_cons_self

theorem matchValue_alias (pattern : Tree) (name : String) (value : Value) (env : Env) :
    matchValue (.alias pattern name) value env =
      matchValue pattern value env >>= fun result =>
        if result.1 then .ok (bindName name value result.2) else .ok (false, result.2) := rfl

/-- An alias matches if its pattern does and its name can be bound then. -/
theorem matchValue_alias_eq_ok {pattern : Tree}
    (h : matchValue (.alias pattern name) value env = .ok (true, env')) :
    ∃ env₁, matchValue pattern value env = .ok (true, env₁) ∧
      bindName name value env₁ = (true, env') := by
  rw [matchValue_alias] at h
  obtain ⟨⟨matched, env₁⟩, first, rest⟩ := exists_of_bind_eq_ok h
  cases matched with
  | false => cases rest
  | true => exact ⟨env₁, first, Except.ok.inj rest⟩

theorem matchAll_cons (pattern : Tree) (patterns : List Tree) (value : Value)
    (values : List Value) (env : Env) :
    matchAll (pattern :: patterns) (value :: values) env =
      matchValue pattern value env >>= fun result =>
        if result.1 then matchAll patterns values result.2 else .ok (false, result.2) := rfl

/-- A list of patterns matches if the first does and the rest does after it. -/
theorem matchAll_cons_eq_ok {pattern : Tree} {patterns : List Tree} {values : List Value}
    {env' : Env} (h : matchAll (pattern :: patterns) (value :: values) env = .ok (true, env')) :
    ∃ env₁, matchValue pattern value env = .ok (true, env₁) ∧
      matchAll patterns values env₁ = .ok (true, env') := by
  rw [matchAll_cons] at h
  obtain ⟨⟨matched, env₁⟩, first, rest⟩ := exists_of_bind_eq_ok h
  cases matched with
  | false => cases rest
  | true => exact ⟨env₁, first, rest⟩

section Preserves

variable {R : Env → Env → Prop}

theorem matchAll_preserves (refl : ∀ env, R env env)
    (trans : ∀ {env env' env''}, R env env' → R env' env'' → R env env'') {patterns : List Tree}
    (each : ∀ t ∈ patterns, ∀ {value : Value} {env env' : Env} {matched : Bool},
      matchValue t value env = .ok (matched, env') → R env env')
    {values : List Value} {matched : Bool}
    (h : matchAll patterns values env = .ok (matched, env')) : R env env' := by
  induction patterns generalizing values env with
  | nil =>
    cases h
    exact refl _
  | cons t patterns ih =>
    cases values with
    | nil =>
      cases h
      exact refl _
    | cons value values =>
      rw [matchAll_cons] at h
      obtain ⟨⟨first, env₁⟩, matched₁, rest⟩ := exists_of_bind_eq_ok h
      have start := each t List.mem_cons_self matched₁
      cases first with
      | false =>
        cases rest
        exact start
      | true => exact trans start (ih (fun c hc => each c (List.mem_cons_of_mem t hc)) rest)

/-- What every binding of a name of the pattern does to an environment, a match does. -/
theorem matchValue_preserves (refl : ∀ env, R env env)
    (trans : ∀ {env env' env''}, R env env' → R env' env'' → R env env'') {t : Tree}
    (bind : ∀ name ∈ bindings t, ∀ value env, R env (bindName name value env).2) {matched : Bool}
    (h : matchValue t value env = .ok (matched, env')) : R env env' := by
  induction t using induct generalizing value env env' matched with
  | step t ih =>
    have each : ∀ c ∈ t.children, ∀ {value : Value} {env env' : Env} {matched : Bool},
        matchValue c value env = .ok (matched, env') → R env env' :=
      fun c hc => ih c hc fun name member => bind name (bindings_subset_of_mem_children hc member)
    cases t with
    | binding name =>
      have bound : (bindName name value env).2 = env' := congrArg Prod.snd (Except.ok.inj h)
      rw [← bound]
      exact bind name (mem_bindings_of_boundName rfl) value env
    | wildcard | constant =>
      cases h
      exact refl _
    | tuplePattern items | listPattern items =>
      -- The value has the right kind and length, or nothing is bound.
      unfold matchValue at h
      split at h
      · split at h
        · exact matchAll_preserves refl trans each h
        · cases h
          exact refl _
      · cases h
        exact refl _
    | «alias» pattern name =>
      rw [matchValue_alias] at h
      obtain ⟨⟨first, env₁⟩, matched₁, rest⟩ := exists_of_bind_eq_ok h
      have start := each pattern List.mem_cons_self matched₁
      cases first with
      | false =>
        cases rest
        exact start
      | true =>
        have bound : (bindName name value env₁).2 = env' := congrArg Prod.snd (Except.ok.inj rest)
        rw [← bound]
        exact trans start (bind name (mem_bindings_of_boundName rfl) value env₁)
    | optional pattern fallback => exact each pattern List.mem_cons_self h
    | _ => cases h

/-- **A match only adds bindings,** and only of names that its pattern binds. -/
theorem matchValue_grows {t : Tree} (within : bindings t ⊆ names) {matched : Bool}
    (h : matchValue t value env = .ok (matched, env')) : Env.Grows names env env' :=
  matchValue_preserves (fun _ => .refl) .trans
    (fun _ member _ _ => bindName_grows (within member)) h

/-- What a list of patterns binds are the names of its patterns. -/
theorem matchAll_grows_flatMap {patterns : List Tree} {values : List Value} {matched : Bool}
    (h : matchAll patterns values env = .ok (matched, env')) :
    Env.Grows (patterns.flatMap bindings) env env' := by
  refine matchAll_preserves (fun _ => .refl) .trans (fun t member => ?_) h
  exact matchValue_grows fun x inside => List.mem_flatMap.2 ⟨t, member, inside⟩

end Preserves

section Agree

/-- A list of patterns does the same in environments that agree on what they bind. -/
theorem matchAll_agree {patterns : List Tree}
    (each : ∀ t ∈ patterns, ∀ {value : Value} {env₁ env₁' env₂ : Env} {matched : Bool},
      Env.AgreeOn names env₁ env₂ → matchValue t value env₁ = .ok (matched, env₁') →
        ∃ env₂', matchValue t value env₂ = .ok (matched, env₂') ∧ Env.AgreeOn names env₁' env₂')
    {values : List Value} {env₁ env₁' env₂ : Env} {matched : Bool}
    (agree : Env.AgreeOn names env₁ env₂)
    (h : matchAll patterns values env₁ = .ok (matched, env₁')) :
    ∃ env₂', matchAll patterns values env₂ = .ok (matched, env₂') ∧
      Env.AgreeOn names env₁' env₂' := by
  induction patterns generalizing values env₁ env₂ with
  | nil =>
    cases h
    exact ⟨env₂, rfl, agree⟩
  | cons t patterns ih =>
    cases values with
    | nil =>
      cases h
      exact ⟨env₂, rfl, agree⟩
    | cons value values =>
      rw [matchAll_cons] at h ⊢
      obtain ⟨⟨first, env⟩, matched₁, rest⟩ := exists_of_bind_eq_ok h
      obtain ⟨env', matched₂, agree'⟩ := each t List.mem_cons_self agree matched₁
      rw [matched₂]
      cases first with
      | false =>
        cases rest
        exact ⟨env', rfl, agree'⟩
      | true => exact ih (fun c hc => each c (List.mem_cons_of_mem t hc)) agree' rest

/-- **A match depends on the names of its pattern only.**  In an environment that agrees on them it
has the same result, and the environments agree on them afterwards. -/
theorem matchValue_agree {t : Tree} (within : bindings t ⊆ names) {env₁ env₁' env₂ : Env}
    {matched : Bool} (agree : Env.AgreeOn names env₁ env₂)
    (h : matchValue t value env₁ = .ok (matched, env₁')) :
    ∃ env₂', matchValue t value env₂ = .ok (matched, env₂') ∧ Env.AgreeOn names env₁' env₂' := by
  induction t using induct generalizing value env₁ env₁' env₂ matched with
  | step t ih =>
    have each : ∀ c ∈ t.children, ∀ {value : Value} {env₁ env₁' env₂ : Env} {matched : Bool},
        Env.AgreeOn names env₁ env₂ → matchValue c value env₁ = .ok (matched, env₁') →
          ∃ env₂', matchValue c value env₂ = .ok (matched, env₂') ∧
            Env.AgreeOn names env₁' env₂' :=
      fun c hc => ih c hc fun _ member => within (bindings_subset_of_mem_children hc member)
    cases t with
    | binding name =>
      have bound : bindName name value env₁ = (matched, env₁') := Except.ok.inj h
      have same := bindName_agree value
        (within (mem_bindings_of_boundName rfl)) agree
      rw [bound] at same
      refine ⟨(bindName name value env₂).2, ?_, same.2⟩
      exact congrArg Except.ok (Prod.ext same.1 rfl)
    | wildcard =>
      cases h
      exact ⟨env₂, rfl, agree⟩
    | constant expected =>
      cases h
      exact ⟨env₂, rfl, agree⟩
    | tuplePattern items | listPattern items =>
      unfold matchValue at h ⊢
      split at h
      · split at h
        · next equal =>
          simp only [if_pos equal]
          exact matchAll_agree each agree h
        · next differ =>
          cases h
          simp only [if_neg differ]
          exact ⟨env₂, rfl, agree⟩
      · cases h
        exact ⟨env₂, rfl, agree⟩
    | «alias» pattern name =>
      rw [matchValue_alias] at h ⊢
      obtain ⟨⟨first, env⟩, matched₁, rest⟩ := exists_of_bind_eq_ok h
      obtain ⟨env', matched₂, agree'⟩ := each pattern List.mem_cons_self agree matched₁
      rw [matched₂]
      cases first with
      | false =>
        cases rest
        exact ⟨env', rfl, agree'⟩
      | true =>
        have bound : bindName name value env = (matched, env₁') := Except.ok.inj rest
        have same := bindName_agree value
          (within (mem_bindings_of_boundName rfl)) agree'
        rw [bound] at same
        refine ⟨(bindName name value env').2, ?_, same.2⟩
        exact congrArg Except.ok (Prod.ext same.1 rfl)
    | optional pattern fallback => exact each pattern List.mem_cons_self agree h
    | _ => cases h

end Agree

/-! ## Named parameters -/

theorem matchValue_required (t : Tree) (value : Value) (env : Env) :
    matchValue (required t) value env = matchValue t value env := by
  cases t <;> rfl

theorem bindings_required_sublist (t : Tree) : (bindings (required t)).Sublist (bindings t) := by
  cases t with
  | optional pattern fallback =>
    rw [bindings_eq (.optional pattern fallback)]
    exact List.sublist_append_left _ _
  | _ => exact .refl _

/-- A pattern to which a synthetic name is given binds it to the value, too. -/
theorem matchValue_withName {t : Tree} {env' : Env}
    (h : matchValue t value env = .ok (true, env')) (unbound : env'.get? name = none) :
    matchValue (withName name t) value env = .ok (true, env'.insert name value) := by
  cases t with
  | wildcard =>
    cases h
    exact congrArg Except.ok (bindName_of_unbound unbound)
  | _ =>
    show matchValue (.alias _ name) value env = _
    rw [matchValue_alias, h]
    exact congrArg Except.ok (bindName_of_unbound unbound)

/-- A named parameter passes an argument on: its name holds the argument, or is the own name of a
parameter to which the argument belongs. -/
def Named.Passes (params : List Tree) (args : List Value) (env : Env) (named : Named)
    (arg : Value) : Prop :=
  env.get? named.name = some arg ∨
    ∃ p, (p, arg) ∈ params.zip args ∧ ownName? (required p) = some named.name

theorem Named.Passes.cons {params : List Tree} {args : List Value} {named : Named} {arg : Value}
    (h : named.Passes params args env arg) (param : Tree) (value : Value) :
    named.Passes (param :: params) (value :: args) env arg := by
  rcases h with bound | ⟨p, pair, isOwn⟩
  · exact .inl bound
  · exact .inr ⟨p, List.mem_cons_of_mem _ pair, isOwn⟩

/-- **Naming parameters keeps matches.**  If the parameters match, the named ones match in every
environment that agrees on their names and binds only taken ones.  Afterwards the environments agree
again, and the named parameters pass their arguments on. -/
theorem matchAll_nameFrom {stem : String} {position : Nat} {taken : List String}
    {params : List Tree} {args : List Value} {env₁ env₁' env₂ : Env}
    (within : ∀ p ∈ params, bindings p ⊆ names) (isTaken : names ⊆ taken)
    (agree : Env.AgreeOn names env₁ env₂) (bindsOnly : Env.BindsOnly taken env₂)
    (h : matchAll params args env₁ = .ok (true, env₁')) :
    ∃ env₂', matchAll ((nameFrom stem position taken params).map Named.pattern) args env₂ =
        .ok (true, env₂') ∧
      Env.AgreeOn names env₁' env₂' ∧
      ∀ named arg, (named, arg) ∈ (nameFrom stem position taken params).zip args →
        named.Passes params args env₂' arg := by
  induction params generalizing position taken args env₁ env₂ with
  | nil =>
    cases h
    refine ⟨env₂, rfl, agree, fun _ _ member => ?_⟩
    cases member
  | cons param params ih =>
    cases args with
    | nil =>
      cases h
      -- Where the arguments end, the match ends and succeeds, however many patterns are left.
      refine ⟨env₂, ?_, agree, fun _ _ member => ?_⟩
      · cases (nameFrom stem position taken (param :: params)).map Named.pattern <;> rfl
      · rw [List.zip_nil_right] at member
        cases member
    | cons arg args =>
      obtain ⟨e₁, first, rest⟩ := matchAll_cons_eq_ok h
      have inNames : bindings (required param) ⊆ names :=
        List.Subset.trans (bindings_required_sublist param).subset (within param List.mem_cons_self)
      have within' : ∀ p ∈ params, bindings p ⊆ names :=
        fun p member => within p (List.mem_cons_of_mem param member)
      rw [← matchValue_required] at first
      obtain ⟨e₂, first', agree'⟩ := matchValue_agree inNames agree first
      have bindsOnly' := bindsOnly.grows (matchValue_grows inNames first') isTaken
      rw [nameFrom]
      cases own : ownName? (required param) with
      | some name =>
        obtain ⟨env₂', rest', agree'', passes⟩ := ih within' isTaken agree' bindsOnly' rest
        refine ⟨env₂', ?_, agree'', fun named a member => ?_⟩
        · rw [List.map_cons, matchAll_cons, first']
          exact rest'
        · rcases List.mem_cons.1 member with same | member
          · cases same
            exact .inr ⟨param, List.mem_cons_self, own⟩
          · exact (passes named a member).cons param arg
      | none =>
        -- The synthetic name is not taken, so it is unbound, and none of the names.
        have untaken := fresh_not_mem taken (stem ++ toString position)
        have apart := fun member => untaken (isTaken member)
        obtain ⟨env₂', rest', agree'', passes⟩ :=
          ih within' (List.Subset.trans isTaken (List.subset_cons_self _ _))
            (agree'.insert apart arg) (bindsOnly'.insert _ arg) rest
        refine ⟨env₂', ?_, agree'', fun named a member => ?_⟩
        · dsimp only
          rw [List.map_cons, matchAll_cons, matchValue_withName first' (bindsOnly' _ untaken)]
          exact rest'
        · rcases List.mem_cons.1 member with same | member
          · cases same
            have bound := Env.get?_insert e₂ (fresh taken (stem ++ toString position)) arg
              (fresh taken (stem ++ toString position))
            rw [if_pos rfl] at bound
            exact .inl ((matchAll_grows_flatMap rest').keeps bound)
          · exact (passes named a member).cons param arg

/-! ## Arguments of linear parameters -/

/-- A pattern that binds no name twice, and none that is bound, binds its own name to the value. -/
theorem matchValue_ownName {t : Tree} {own : String} (isOwn : ownName? t = some own)
    (linear : (bindings t).Nodup) (unbound : ∀ x ∈ bindings t, env.get? x = none)
    (h : matchValue t value env = .ok (true, env')) : env'.get? own = some value := by
  cases t with
  | binding name =>
    cases isOwn
    have free := unbound own (mem_bindings_of_boundName rfl)
    have bound : bindName own value env = (true, env') := Except.ok.inj h
    rw [bindName_of_unbound free] at bound
    cases bound
    rw [Env.get?_insert, if_pos rfl]
  | «alias» pattern name =>
    cases isOwn
    obtain ⟨env₁, first, bound⟩ := matchValue_alias_eq_ok h
    -- The pattern does not bind the name of the alias again.
    rw [bindings_eq] at linear
    have other : own ∉ bindings pattern := by
      simpa [boundName?, children] using (List.nodup_cons.1 linear).1
    have free : env₁.get? own = none := by
      rw [(matchValue_grows (List.Subset.refl _) first).of_not_mem other]
      exact unbound own (mem_bindings_of_boundName rfl)
    rw [bindName_of_unbound free] at bound
    cases bound
    rw [Env.get?_insert, if_pos rfl]
  | _ => cases isOwn

/-- **Own names.**  If no name is bound twice, the own name of a parameter holds its argument after
the match. -/
theorem get?_of_ownName {params : List Tree} {args : List Value}
    (linear : (params.flatMap bindings).Nodup)
    (unbound : ∀ x ∈ params.flatMap bindings, env.get? x = none)
    (h : matchAll params args env = .ok (true, env')) {p : Tree} {arg : Value} {own : String}
    (pair : (p, arg) ∈ params.zip args) (isOwn : ownName? (required p) = some own) :
    env'.get? own = some arg := by
  induction params generalizing args env with
  | nil => cases pair
  | cons param params ih =>
    cases args with
    | nil => cases pair
    | cons value args =>
      obtain ⟨env₁, first, rest⟩ := matchAll_cons_eq_ok h
      rw [List.flatMap_cons] at linear unbound
      obtain ⟨linearHead, linearTail, apart⟩ := List.nodup_append.1 linear
      have grows := matchValue_grows (List.Subset.refl _) first
      rcases List.mem_cons.1 pair with same | pair
      · cases same
        rw [← matchValue_required] at first
        have sublist := bindings_required_sublist p
        refine (matchAll_grows_flatMap rest).keeps ?_
        refine matchValue_ownName isOwn (linearHead.sublist sublist) (fun x member => ?_) first
        exact unbound x (List.mem_append_left _ (sublist.subset member))
      · refine ih linearTail (fun x member => ?_) rest pair
        rw [grows.of_not_mem fun inHead => apart x inHead x member rfl]
        exact unbound x (List.mem_append_right _ member)

/-- If parameters match arguments, the normalized ones do, too; then they bind the same names to the
same values, and pass the arguments on. -/
theorem matchAll_normalize_passes {params : List Tree} {args : List Value} (guards : List Tree)
    (stem : String) (h : matchAll params args ∅ = .ok (true, env)) :
    ∃ env', matchAll (normalize params guards stem) args ∅ = .ok (true, env') ∧
      Env.AgreeOn (params.flatMap bindings) env env' ∧
      ∀ named arg, (named, arg) ∈ (nameParameters params guards stem).zip args →
        named.Passes params args env' arg :=
  matchAll_nameFrom (fun p member _ inside => List.mem_flatMap.2 ⟨p, member, inside⟩)
    (List.subset_append_left _ _) (fun _ _ => rfl) (fun _ _ => rfl) h

/-- **Normalized parameters.**  If parameters that bind no name twice match arguments, one for each,
the normalized ones match them, too, with all bindings, and what passes the arguments on has their
values. -/
theorem matchAll_normalize {params : List Tree} {args : List Value} (guards : List Tree)
    (stem : String) (linear : (params.flatMap bindings).Nodup)
    (length : params.length = args.length)
    (h : matchAll params args ∅ = .ok (true, env)) :
    ∃ env', matchAll (normalize params guards stem) args ∅ = .ok (true, env') ∧
      (∀ x a, env.get? x = some a → env'.get? x = some a) ∧
      List.Forall₂ (fun t a => ∃ x, t = .var x ∧ env'.get? x = some a)
        (forward params guards stem) args := by
  obtain ⟨env', matches', agree, passes⟩ := matchAll_normalize_passes guards stem h
  have keeps : ∀ x a, env.get? x = some a → env'.get? x = some a := by
    intro x a bound
    rw [agree x ((matchAll_grows_flatMap h).mem_of_bound rfl bound), bound]
  refine ⟨env', matches', keeps, ?_⟩
  rw [forward, List.forall₂_map_left_iff, List.forall₂_iff_zip]
  refine ⟨?_, fun {named a} pair => ⟨named.name, rfl, ?_⟩⟩
  · rw [nameParameters, length_nameFrom, length]
  · rcases passes named a pair with bound | ⟨p, pair', isOwn⟩
    · exact bound
    · exact keeps _ _ (get?_of_ownName linear (fun _ _ => rfl) h pair' isOwn)

end Tree

end Heredity
