import Heredity.Error

/-!
# Parameter lists

A routine that passes its arguments on needs a name for every parameter, while a declaration may use
wildcards, nested patterns and optional parameters.

* `Tree.nameParameters` gives every parameter a name: a parameter that is a binding or an alias
  keeps its own, any other gets a synthetic one.  `Tree.normalize` is the list of the patterns, and
  `Tree.forward` the list of variables that pass the arguments on.
* `Tree.forwardingArguments` finds the names of a list that is normalized already.
* `Tree.expandDefaults` turns a declaration with optional parameters into one routine for each
  arity.

A synthetic name is a stem followed by the position of its parameter, counted from one, with
underscores after it until it differs from every name that the parameters bind, that the guards
mention, or that was made up before (`Tree.fresh`).
-/

namespace Heredity.Tree

/-! ### Synthetic names -/

/-- Puts underscores after a name until it is not among the names that are taken.  Names that have
been passed are dropped, so `fuel` need not be larger than their number. -/
def freshAfter : Nat → List String → String → String
  | 0, _, name => name
  | fuel + 1, taken, name =>
    if name ∈ taken then freshAfter fuel (taken.filter (· ≠ name)) (name ++ "_") else name

/-- The name itself, or the first one with underscores after it that is not taken. -/
def fresh (taken : List String) (name : String) : String := freshAfter taken.length taken name

theorem freshAfter_succ (fuel : Nat) (taken : List String) (name : String) :
    freshAfter (fuel + 1) taken name =
      if name ∈ taken then freshAfter fuel (taken.filter (· ≠ name)) (name ++ "_") else name := rfl

/-- A synthetic name is at least as long as the name it is made from. -/
theorem length_le_length_freshAfter (fuel : Nat) (taken : List String) (name : String) :
    name.length ≤ (freshAfter fuel taken name).length := by
  induction fuel generalizing taken name with
  | zero => exact Nat.le_refl _
  | succ fuel ih =>
    rw [freshAfter_succ]
    split
    · refine Nat.le_trans ?_ (ih _ _)
      rw [String.length_append]
      exact Nat.le_add_right _ _
    · exact Nat.le_refl _

theorem freshAfter_not_mem (fuel : Nat) (taken : List String) (name : String)
    (h : taken.length ≤ fuel) : freshAfter fuel taken name ∉ taken := by
  induction fuel generalizing taken name with
  | zero =>
    rw [List.eq_nil_of_length_eq_zero (Nat.le_zero.1 h)]
    exact List.not_mem_nil
  | succ fuel ih =>
    rw [freshAfter_succ]
    split
    · next hmem =>
      have hlt : (taken.filter (· ≠ name)).length < taken.length := by
        rw [List.length_filter_lt_length_iff_exists]
        exact ⟨name, hmem, by simp⟩
      have hrest := ih (taken.filter (· ≠ name)) (name ++ "_") (by omega)
      intro hin
      refine hrest (List.mem_filter.2 ⟨hin, ?_⟩)
      have hlen := length_le_length_freshAfter fuel (taken.filter (· ≠ name)) (name ++ "_")
      have hne : freshAfter fuel (taken.filter (· ≠ name)) (name ++ "_") ≠ name := by
        intro he
        rw [he, String.length_append] at hlen
        have hone : "_".length = 1 := by decide
        omega
      simpa using hne
    · next hmem => exact hmem

/-- A synthetic name is not taken. -/
theorem fresh_not_mem (taken : List String) (name : String) : fresh taken name ∉ taken :=
  freshAfter_not_mem _ _ _ (Nat.le_refl _)

/-! ### Naming parameters -/

/-- A parameter with the name under which its argument can be passed on. -/
structure Named where
  /-- The parameter. -/
  pattern : Tree
  /-- A name that the parameter binds to the whole argument. -/
  name : String

/-- The pattern of an optional parameter; other parameters stay. -/
def required : Tree → Tree
  | .optional pattern _ => pattern
  | t => t

/-- The names that the parameters bind and the guards mention. -/
def takenNames (params guards : List Tree) : List String :=
  params.flatMap bindings ++ guards.flatMap references

/-- The name that a parameter has by itself. -/
def ownName? : Tree → Option String
  | .binding name => some name
  | .alias _ name => some name
  | _ => none

/-- Gives a parameter without a name of its own a name: a wildcard becomes a binding, any other
pattern gets an alias. -/
def withName (name : String) : Tree → Tree
  | .wildcard _ => .binding name
  | pattern => .alias pattern name

/-- Names the parameters from position `position` on. -/
def nameFrom (stem : String) : Nat → List String → List Tree → List Named
  | _, _, [] => []
  | position, taken, param :: params =>
    let pattern := required param
    match ownName? pattern with
    | some name => ⟨pattern, name⟩ :: nameFrom stem (position + 1) taken params
    | none =>
      let name := fresh taken (stem ++ toString position)
      ⟨withName name pattern, name⟩ :: nameFrom stem (position + 1) (name :: taken) params

/-- Gives every parameter a name. -/
def nameParameters (params guards : List Tree) (stem : String) : List Named :=
  nameFrom stem 1 (takenNames params guards) params

/-- The parameters, each with a name of its own. -/
def normalize (params guards : List Tree) (stem : String) : List Tree :=
  (nameParameters params guards stem).map Named.pattern

/-- The variables that pass the arguments of normalized parameters on. -/
def forward (params guards : List Tree) (stem : String) : List Tree :=
  (nameParameters params guards stem).map fun p => .var p.name

/-- The variable that passes the argument of a parameter on. -/
def forwardingArgument (param : Tree) : Except Error Tree :=
  match ownName? param with
  | some name => .ok (.var name)
  | none => .error (.notNormalized param)

/-- The variables that pass the arguments of a list of parameters on, if each has a name. -/
def forwardingArguments (params : List Tree) : Except Error (List Tree) :=
  params.mapM forwardingArgument

theorem ownName?_withName (name : String) (pattern : Tree) :
    ownName? (withName name pattern) = some name := by
  cases pattern <;> rfl

theorem forwardingArguments_nameFrom (stem : String) (position : Nat) (taken : List String)
    (params : List Tree) :
    forwardingArguments ((nameFrom stem position taken params).map Named.pattern) =
      .ok ((nameFrom stem position taken params).map fun p => .var p.name) := by
  induction params generalizing position taken with
  | nil => rfl
  | cons param params ih =>
    rw [nameFrom]
    split
    · next name hname =>
      simp only [List.map_cons, forwardingArguments, List.mapM_cons] at ih ⊢
      rw [ih]
      simp [forwardingArgument, hname]
      rfl
    · simp only [List.map_cons, forwardingArguments, List.mapM_cons] at ih ⊢
      rw [ih]
      simp [forwardingArgument, ownName?_withName]
      rfl

/-- Normalized parameters can be passed on, and `forward` passes them on. -/
theorem forwardingArguments_normalize (params guards : List Tree) (stem : String) :
    forwardingArguments (normalize params guards stem) = .ok (forward params guards stem) :=
  forwardingArguments_nameFrom _ _ _ _

/-! ### Optional parameters -/

/-- The number of optional parameters of a list. -/
def optionalCount (params : List Tree) : Nat :=
  params.countP fun
    | .optional .. => true
    | _ => false

/-- The least number of arguments that a declaration answers to; the largest is the number of its
parameters. -/
def leastArity (params : List Tree) : Nat := params.length - optionalCount params

/-- One routine of a declaration. -/
structure Variant where
  /-- The number of its parameters. -/
  arity : Nat
  /-- The parameters. -/
  params : List Tree
  /-- The guards. -/
  guards : List Tree
  /-- The body. -/
  body : Tree

/-- The parameters that are supplied when the first `supplied` optional ones are: each is required
then. -/
def suppliedParams : Nat → List Tree → List Tree
  | _, [] => []
  | supplied + 1, .optional pattern _ :: params => pattern :: suppliedParams supplied params
  | 0, .optional _ _ :: params => suppliedParams 0 params
  | supplied, param :: params => param :: suppliedParams supplied params

/-- The arguments of the call that fills in the rest: the next of `args` for each parameter that is
supplied, the fallback value for each that is not. -/
def filledArgs : Nat → List Tree → List Tree → List Tree
  | _, [], _ => []
  | 0, .optional _ value :: params, args => value :: filledArgs 0 params args
  | supplied + 1, .optional _ _ :: params, arg :: args => arg :: filledArgs supplied params args
  | supplied, _ :: params, arg :: args => arg :: filledArgs supplied params args
  | _, _ :: _, [] => []

/-- The routine that is called with the first `supplied` optional parameters only: it calls the full
one. -/
def shorterVariant (name : String) (params : List Tree) (stem : String) (supplied : Nat) :
    Variant :=
  let given := suppliedParams supplied params
  { arity := leastArity params + supplied
    params := normalize given [] stem
    guards := []
    body := .call name (filledArgs supplied params (forward given [] stem)) }

/-- The routine with all parameters. -/
def fullVariant (params guards : List Tree) (body : Tree) : Variant :=
  { arity := params.length, params := params.map required, guards := guards, body := body }

/-- One routine for each arity of a declaration, the smallest first.  Arguments beyond the required
ones go to the optional parameters from left to right. -/
def expandDefaults (name : String) (params guards : List Tree) (body : Tree) (stem : String) :
    List Variant :=
  (List.range (optionalCount params)).map (shorterVariant name params stem) ++
    [fullVariant params guards body]

end Heredity.Tree
