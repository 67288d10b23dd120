import Heredity.Tree.Parameters

/-!
# The shape of parameter lists

Naming parameters and expanding optional ones keep the count: a normalized list is as long as the
list it was made from, and every variant of a declaration has as many parameters as its arity says.
Once the parameters have names, naming them again changes nothing.
-/

namespace Heredity.Tree

/-! ## Counting -/

theorem length_nameFrom (stem : String) (position : Nat) (taken : List String)
    (params : List Tree) : (nameFrom stem position taken params).length = params.length := by
  induction params generalizing position taken with
  | nil => rfl
  | cons param params ih =>
    rw [nameFrom]
    split <;> simp [ih]

/-- Naming parameters keeps their number. -/
theorem length_normalize (params guards : List Tree) (stem : String) :
    (normalize params guards stem).length = params.length := by
  rw [normalize, List.length_map, nameParameters, length_nameFrom]

/-- One argument is passed on for each parameter. -/
theorem length_forward (params guards : List Tree) (stem : String) :
    (forward params guards stem).length = params.length := by
  rw [forward, List.length_map, nameParameters, length_nameFrom]

theorem optionalCount_le_length (params : List Tree) : optionalCount params ≤ params.length :=
  List.countP_le_length

theorem optionalCount_cons_optional (pattern value : Tree) (params : List Tree) :
    optionalCount (.optional pattern value :: params) = optionalCount params + 1 := by
  simp [optionalCount]

theorem optionalCount_cons_required {param : Tree} (params : List Tree)
    (h : ∀ pattern value, param ≠ .optional pattern value) :
    optionalCount (param :: params) = optionalCount params := by
  cases param <;> simp_all [optionalCount]

/-- With `supplied` optional parameters and all others, that many parameters are given. -/
theorem length_suppliedParams (supplied : Nat) (params : List Tree)
    (h : supplied ≤ optionalCount params) :
    (suppliedParams supplied params).length = leastArity params + supplied := by
  have bound := optionalCount_le_length
  simp only [leastArity]
  fun_induction suppliedParams supplied params with
  | case1 => simp_all [optionalCount]
  | case2 supplied pattern value params ih =>
    rw [optionalCount_cons_optional] at h
    have := ih (by omega)
    simp only [List.length_cons, optionalCount_cons_optional, this]
    have := bound params
    omega
  | case3 pattern value params ih =>
    have := ih (by omega)
    simp only [List.length_cons, optionalCount_cons_optional, this]
    omega
  | case4 supplied param params hsucc hzero ih =>
    have required : ∀ pattern value, param ≠ .optional pattern value := by
      intro pattern value hparam
      cases supplied with
      | zero => exact hzero pattern value rfl hparam
      | succ n => exact hsucc n pattern value rfl hparam
    rw [optionalCount_cons_required params required] at h ⊢
    have := ih h
    simp only [List.length_cons, this]
    have := bound params
    omega

/-- Every variant has as many parameters as its arity says. -/
theorem length_params_of_mem_expandDefaults {name : String} {params guards : List Tree}
    {body : Tree} {stem : String} {v : Variant}
    (h : v ∈ expandDefaults name params guards body stem) : v.params.length = v.arity := by
  rcases List.mem_append.1 h with h | h
  · obtain ⟨supplied, hs, rfl⟩ := List.mem_map.1 h
    have hle : supplied ≤ optionalCount params := Nat.le_of_lt (List.mem_range.1 hs)
    show (normalize (suppliedParams supplied params) [] stem).length = _
    rw [length_normalize, length_suppliedParams supplied params hle]
    rfl
  · obtain rfl := List.mem_singleton.1 h
    exact List.length_map _

/-- What every variant has of a declaration whose body and guards are expressions. -/
structure Variant.Proper (v : Variant) : Prop where
  /-- The arity is the number of the parameters. -/
  arity : v.params.length = v.arity
  /-- The body is an expression. -/
  body : v.body.isExpression = true
  /-- The guards are expressions. -/
  guards : ∀ guard ∈ v.guards, guard.isExpression = true

theorem proper_of_mem_expandDefaults {name : String} {params guards : List Tree} {body : Tree}
    {stem : String} (isBody : body.isExpression = true)
    (areGuards : ∀ guard ∈ guards, guard.isExpression = true) {v : Variant}
    (h : v ∈ expandDefaults name params guards body stem) : v.Proper := by
  have arity := length_params_of_mem_expandDefaults h
  rcases List.mem_append.1 h with h | h
  · obtain ⟨supplied, -, rfl⟩ := List.mem_map.1 h
    exact ⟨arity, rfl, fun _ member => nomatch member⟩
  · obtain rfl := List.mem_singleton.1 h
    exact ⟨arity, isBody, areGuards⟩

/-! ## Naming again -/

/-- A parameter with a name of its own is not optional. -/
theorem required_of_ownName? {t : Tree} {name : String} (h : ownName? t = some name) :
    required t = t := by
  cases t with
  | optional => cases h
  | _ => rfl

/-- Parameters that are named already keep their names, whatever other names are taken. -/
theorem nameFrom_named (stem stem' : String) (position position' : Nat)
    (taken taken' : List String) (params : List Tree) :
    nameFrom stem' position' taken' ((nameFrom stem position taken params).map Named.pattern) =
      nameFrom stem position taken params := by
  induction params generalizing position position' taken taken' with
  | nil => rfl
  | cons param params ih =>
    have keeps : ∀ {pattern : Tree} {name : String} (rest : List Tree),
        ownName? pattern = some name →
        nameFrom stem' position' taken' (pattern :: rest) =
          ⟨pattern, name⟩ :: nameFrom stem' (position' + 1) taken' rest := by
      intro pattern name rest own
      rw [nameFrom, required_of_ownName? own, own]
    rw [nameFrom]
    split
    · next name own => rw [List.map_cons, keeps _ own, ih]
    · rw [List.map_cons, keeps _ (ownName?_withName _ _), ih]

/-- **Naming parameters again** changes nothing. -/
theorem nameParameters_normalize (params guards guards' : List Tree) (stem stem' : String) :
    nameParameters (normalize params guards stem) guards' stem' =
      nameParameters params guards stem :=
  nameFrom_named _ _ _ _ _ _ _

theorem normalize_normalize (params guards guards' : List Tree) (stem stem' : String) :
    normalize (normalize params guards stem) guards' stem' = normalize params guards stem := by
  rw [normalize, nameParameters_normalize, normalize]

theorem forward_normalize (params guards guards' : List Tree) (stem stem' : String) :
    forward (normalize params guards stem) guards' stem' = forward params guards stem := by
  rw [forward, nameParameters_normalize, forward]

end Heredity.Tree
