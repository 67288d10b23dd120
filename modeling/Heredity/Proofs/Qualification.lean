import Heredity.Proofs.Preparation

/-!
# Qualification, address by address

A body is bound to its base and then qualified with the imports of its unit.  Together the two
passes change certain nodes, each in its place, and nothing else.

* `Tree.bare` — a node without its parts: its kind, its own fields and the number of its parts.
* `Tree.target?` — the unit and the routine that a node is to be redirected to, if it is.
* `Tree.Redirected` — a tree is another one with every node redirected, and the other nodes kept.
* `bindBase_of_isExpression`, `bindBase_of_reference` — where binding succeeds and where it is
  refused.
* `transformM_qualified` — qualifying again does what qualifying did.
* `references_redirected` — the two passes one after the other.

**A second run is not the first one again.**  A call that was qualified in the first run is met by
another case of the second run.  Both note the same unit, but the calls in the arguments come first,
so this is an equation between computations and not between their results on the empty set.
-/

namespace Heredity.Tree

variable {name : String} {base : Option String} {imports : Table Key String} {t t' : Tree}

/-! ## Nodes -/

/-- A node without its parts: only its kind, its own fields and the number of its parts are left. -/
def bare (t : Tree) : Tree := t.mapChildren fun _ => .currentUnit

theorem mapChildren_mapChildren (f g : Tree → Tree) (t : Tree) :
    (t.mapChildren f).mapChildren g = t.mapChildren (g ∘ f) := by
  cases t <;> simp [mapChildren]

theorem bare_mapChildren (f : Tree → Tree) (t : Tree) : (t.mapChildren f).bare = t.bare :=
  mapChildren_mapChildren f _ t

/-- The unit and the routine that a node is redirected to: a reference to the base leads there,
under the name of the routine that is declared or the one that it names, and a bare call of an
imported routine leads to the source of the import. -/
def target? (name : String) (base : Option String) (imports : Table Key String) :
    Tree → Option (String × String)
  | .superCall _ => base.map fun unit => (unit, name)
  | .baseCall called _ => base.map fun unit => (unit, called)
  | .call called args =>
    (imports.get? (Key.ofCount called args.length)).map fun unit => (unit, called)
  | _ => none

/-- **Redirected.**  The trees have the same addresses.  Where a node has a target, the other tree
has the qualified call of it, with as many arguments; where it has none, the other tree has a node
that differs in its parts only. -/
structure Redirected (name : String) (base : Option String) (imports : Table Key String)
    (t t' : Tree) : Prop where
  /-- The shape is the same. -/
  shape : ∀ path, (t'.at? path).isSome = (t.at? path).isSome
  /-- Nodes with a target are redirected. -/
  redirects : ∀ {path n unit called}, t.at? path = some n →
    n.target? name base imports = some (unit, called) →
    ∃ args, t'.at? path = some (.remoteCall unit called args) ∧ args.length = n.children.length
  /-- The others are kept. -/
  keeps : ∀ {path n}, t.at? path = some n → n.target? name base imports = none →
    ∃ n', t'.at? path = some n' ∧ n'.bare = n.bare

/-- What binding and qualifying make of a node with a target. -/
theorem qualified_bound_of_target {unit called : String}
    (h : t.target? name base imports = some (unit, called)) :
    ∃ args, (t.bound name base).qualified imports = .remoteCall unit called args ∧
      args.length = t.children.length := by
  cases t with
  | superCall args | baseCall _ args =>
    obtain ⟨base', rfl, same⟩ := Option.map_eq_some_iff.1 h
    cases same
    exact ⟨_, rfl, by simp [children, transformAll_eq_map]⟩
  | call called' args =>
    obtain ⟨source, isImported, same⟩ := Option.map_eq_some_iff.1 h
    cases same
    have unbound :
        bound name base (.call called args) = .call called (args.map (bound name base)) := by
      rw [bound, transform_eq]
      cases base <;> rfl
    refine ⟨(args.map (bound name base)).map (qualified imports), ?_, by simp [children]⟩
    rw [unbound, qualified_eq, mapChildren, qualifiedNode, List.length_map, List.length_map,
      isImported]
  | _ => cases h

/-- What binding and qualifying make of a node without a target differs in its parts only. -/
theorem bare_qualified_bound (h : t.target? name base imports = none) :
    ((t.bound name base).qualified imports).bare = t.bare := by
  have bound_eq : t.bound name base = t.mapChildren (bound name base) := by
    rw [bound, transform_eq]
    cases t with
    | superCall | baseCall =>
      cases base with
      | none => rfl
      | some => cases h
    | _ => cases base <;> rfl
  have qualified_eq' : (t.mapChildren (bound name base)).qualified imports =
      (t.mapChildren (bound name base)).mapChildren (qualified imports) := by
    rw [qualified_eq]
    cases t with
    | call called args =>
      refine qualifiedNode_call ?_
      rw [List.length_map, List.length_map]
      exact Option.map_eq_none_iff.1 h
    | _ => rfl
  rw [bound_eq, qualified_eq', bare_mapChildren, bare_mapChildren]

/-- **One pass after the other** redirects every node in its place. -/
theorem redirected_qualified_bound (name : String) (base : Option String)
    (imports : Table Key String) (t : Tree) :
    t.Redirected name base imports ((t.bound name base).qualified imports) := by
  have inPlace : ∀ path, ((t.bound name base).qualified imports).at? path =
      (t.at? path).map fun n => (n.bound name base).qualified imports := by
    intro path
    rw [qualified, at?_transform (children_qualifiedNode imports), bound,
      at?_transform (children_boundNode name base), Option.map_map]
    rfl
  constructor
  · intro path
    rw [inPlace, Option.isSome_map]
  · intro path n unit called there isTarget
    obtain ⟨args, isCall, length⟩ := qualified_bound_of_target isTarget
    exact ⟨args, by rw [inPlace, there, Option.map_some, isCall], length⟩
  · intro path n there noTarget
    exact ⟨_, by rw [inPlace, there, Option.map_some], bare_qualified_bound noTarget⟩

/-! ## Where binding is refused -/

/-- If a node cannot be rebuilt, that is due to one of its parts. -/
theorem exists_of_mapChildrenM_eq_error {m : Tree → Except Error Tree} {e : Error}
    (h : t.mapChildrenM m = .error e) : ∃ c ∈ t.children, m c = .error e :=
  fails_mapChildrenM (P := fun e => ∃ c ∈ t.children, m c = .error e)
    (fun c part _ failed => ⟨c, part, failed⟩) e h

/-- A node is rebuilt if each of its parts yields something. -/
theorem mapChildrenM_eq_ok_of {m : Tree → Except Error Tree} {f : Tree → Tree}
    (h : ∀ c ∈ t.children, m c = .ok (f c)) : t.mapChildrenM m = .ok (t.mapChildren f) := by
  cases rebuilt : t.mapChildrenM m with
  | error e =>
    obtain ⟨c, part, failed⟩ := exists_of_mapChildrenM_eq_error rebuilt
    rw [h c part] at failed
    cases failed
  | ok t' =>
    have each : ∀ c ∈ t.children, ∀ c', m c = .ok c' → c' = f c ∧ True := by
      intro c part c' done
      rw [h c part] at done
      cases done
      exact ⟨rfl, trivial⟩
    rw [(mapChildrenM_eq_ok each rebuilt).1]

theorem bindBaseNode_mapChildren (f : Tree → Tree) (h : base = none → t.isReference = false) :
    bindBaseNode name base (t.mapChildren f) = .ok (boundNode name base (t.mapChildren f)) := by
  cases t with
  | superCall | baseCall =>
    cases base with
    | none => cases h rfl
    | some => rfl
  | _ => cases base <;> rfl

/-- Where there is a base, or nothing refers to one, every node is bound. -/
theorem transformM_bindBaseNode (h : base = none → t.IsBound) :
    transformM (bindBaseNode name base) t = .ok (t.bound name base) := by
  induction t using induct with
  | step t ih =>
    have parts : ∀ c ∈ t.children,
        transformM (bindBaseNode name base) c = .ok (c.bound name base) :=
      fun c part => ih c part fun noBase => (isBound_iff.1 (h noBase)).2 c part
    rw [transformM_eq, mapChildrenM_eq_ok_of parts, bound, transform_eq]
    exact bindBaseNode_mapChildren _ fun noBase => (isBound_iff.1 (h noBase)).1

/-- Only a reference is refused, and the error names the routine that it is to. -/
theorem exists_of_transformM_eq_error {e : Error}
    (h : transformM (bindBaseNode name base) t = .error e) :
    base = none ∧ ∃ n ∈ t.walk, ∃ target args, baseReference? name n = some (target, args) ∧
      e = .noBase (Key.ofCount target args.length) := by
  induction t using induct with
  | step t ih =>
    rw [transformM_eq] at h
    cases rebuilt : t.mapChildrenM (transformM (bindBaseNode name base)) with
    | error e' =>
      rw [rebuilt] at h
      cases h
      obtain ⟨c, part, failed⟩ := exists_of_mapChildrenM_eq_error rebuilt
      obtain ⟨noBase, n, inside, reference⟩ := ih c part failed
      exact ⟨noBase, n, walk_subset_of_mem_children part inside, reference⟩
    | ok t' =>
      rw [rebuilt] at h
      obtain ⟨rfl, -⟩ := mapChildrenM_eq_ok
        (fun _ _ _ done => transformM_bindBaseNode_eq_ok done) rebuilt
      cases t with
      | superCall args | baseCall target args =>
        cases base with
        | none =>
          cases h
          refine ⟨rfl, _, self_mem_walk _, _, args, rfl, ?_⟩
          rw [List.length_map]
        | some => cases h
      | _ => cases h

/-- Without a base, binding changes nothing. -/
theorem bound_none (name : String) (t : Tree) : t.bound name none = t := by
  induction t using induct with
  | step t ih =>
    have node : ∀ t', boundNode name none t' = t' := fun t' => by
      cases t' <;> rfl
    rw [bound, transform_eq, node]
    refine (mapChildren_congr ih).trans ?_
    cases t <;> simp [mapChildren]

/-- Whether a bound tree is an expression can be seen from the tree. -/
theorem isExpression_bound : (t.bound name base).isExpression = t.isExpression := by
  rw [bound, transform_eq, ← isExpression_mapChildren (transform (boundNode name base)) t]
  cases t with
  | superCall | baseCall => cases base <;> rfl
  | _ => cases base <;> rfl

/-- Where there is a base, or nothing refers to one, an expression is bound. -/
theorem bindBase_of_isExpression (name : String) (isExpression : t.isExpression = true)
    (h : base = none → t.IsBound) : t.bindBase name base = .ok (t.bound name base) := by
  rw [bindBase, transformM_bindBaseNode h]
  show expression (t.bound name base) = _
  rw [expression, isExpression_bound, if_pos isExpression]

/-- Where there is no base but a reference to it, binding is refused, and the error names the
routine of such a reference. -/
theorem bindBase_of_reference (name : String) {n : Tree} (member : n ∈ t.walk)
    (reference : n.isReference = true) :
    ∃ n ∈ t.walk, ∃ target args, baseReference? name n = some (target, args) ∧
      t.bindBase name none = .error (.noBase (Key.ofCount target args.length)) := by
  cases outcome : transformM (bindBaseNode name none) t with
  | error e =>
    obtain ⟨-, n, inside, target, args, isReference, rfl⟩ := exists_of_transformM_eq_error outcome
    refine ⟨n, inside, target, args, isReference, ?_⟩
    rw [bindBase, outcome]
    rfl
  | ok t' =>
    obtain ⟨rfl, isBound⟩ := transformM_bindBaseNode_eq_ok outcome
    rw [bound_none] at isBound
    rw [isBound n member] at reference
    cases reference

/-! ## Qualifying again -/

/-- Rebuilding a node depends on what is done with its parts only. -/
theorem mapChildrenM_congr {m : Type → Type} [Monad m] [LawfulMonad m] {f g : Tree → m Tree}
    (h : ∀ c ∈ t.children, f c = g c) : t.mapChildrenM f = t.mapChildrenM g := by
  rw [mapChildrenM_eq_node, mapChildrenM_eq_node, mapM_congr h]

theorem mapChildrenM_mapChildren {m : Type → Type} [Monad m] [LawfulMonad m] (f : Tree → m Tree)
    (g : Tree → Tree) (t : Tree) :
    (t.mapChildren g).mapChildrenM f = t.mapChildrenM (f ∘ g) := by
  cases t <;> simp [mapChildren, mapChildrenM]

/-- Going on from the parts, it makes no difference whether the call was qualified before. -/
theorem mapChildrenM_qualifiedNode {m : Tree → StateM NameSet Tree} {f : Tree → Tree}
    (h : ∀ c ∈ t.children, Yields (m c) (f c)) :
    (qualifiedNode imports t).mapChildrenM m >>= qualifyNode imports =
      t.mapChildrenM m >>= qualifyNode imports := by
  cases t with
  | call called args =>
    cases isImported : imports.get? (Key.ofCount called args.length) with
    | none => rw [qualifiedNode_call isImported]
    | some unit =>
      have node : qualifiedNode imports (.call called args) = .remoteCall unit called args := by
        rw [qualifiedNode, isImported]
      rw [node]
      funext s
      -- The arguments that come out are as many, so the call is still of an imported routine.
      have out : ((args.mapM m).run s).1 = args.map f := Yields.mapM h s
      have call : qualifyNode imports (.call called ((args.mapM m).run s).1) =
          qualifyNode imports (.remoteCall unit called ((args.mapM m).run s).1) := by
        rw [out, qualifyNode, List.length_map, isImported]
        rfl
      have step : ∀ node : List Tree → Tree,
          ((do return node (← args.mapM m)) >>= qualifyNode imports) s =
            qualifyNode imports (node ((args.mapM m).run s).1) ((args.mapM m).run s).2 :=
        fun _ => rfl
      show ((do return .remoteCall unit called (← args.mapM m)) >>= qualifyNode imports) s =
        ((do return .call called (← args.mapM m)) >>= qualifyNode imports) s
      rw [step, step, call]
  | _ => rfl

/-- **Qualifying again** does what qualifying did: the tree and the units are the same, from any
units on. -/
theorem transformM_qualified (imports : Table Key String) (t : Tree) :
    transformM (qualifyNode imports) (t.qualified imports) =
      transformM (qualifyNode imports) t := by
  induction t using induct with
  | step t ih =>
    have again : ∀ c ∈ (t.mapChildren (qualified imports)).children,
        Yields (transformM (qualifyNode imports) c) (qualified imports c) :=
      fun c _ => yields_transformM (yields_qualifyNode imports) c
    have parts : t.mapChildrenM (transformM (qualifyNode imports) ∘ qualified imports) =
        t.mapChildrenM (transformM (qualifyNode imports)) := mapChildrenM_congr ih
    rw [qualified_eq, transformM_eq, mapChildrenM_qualifiedNode again, mapChildrenM_mapChildren,
      parts, ← transformM_eq]

theorem qualify_qualified (imports : Table Key String) (t : Tree) :
    (t.qualified imports).qualify imports = t.qualify imports := by
  rw [qualify, qualify, transformM_qualified]

/-! ## One pass after the other -/

/-- The units that qualified calls name are those that stand in one of them. -/
theorem mem_remoteUnits_iff {unit : String} :
    unit ∈ t.remoteUnits ↔ ∃ called args, .remoteCall unit called args ∈ t.walk := by
  rw [remoteUnits, List.mem_filterMap]
  constructor
  · rintro ⟨n, member, names⟩
    cases n with
    | remoteCall unit' called args =>
      cases names
      exact ⟨called, args, member⟩
    | _ => cases names
  · rintro ⟨called, args, member⟩
    exact ⟨_, member, rfl⟩

/-- **References and imported calls are redirected, and nothing else is.**  Binding an expression is
refused exactly where there is no base and a node that refers to one; the error names the routine of
such a node.  Otherwise the two passes, one after the other, give an expression in which every
reference and every bare call of an imported routine is redirected in its place and the other nodes
are kept.  The units that are given are those of its qualified calls.  Qualifying it again gives the
same expression and the same units. -/
theorem references_redirected (name : String) (base : Option String) (imports : Table Key String)
    (t : Tree) (isExpression : t.isExpression = true) :
    ((∃ e, t.bindBase name base = .error e) ↔
      base = none ∧ ∃ n ∈ t.walk, n.isReference = true) ∧
    (∀ e, t.bindBase name base = .error e → ∃ n ∈ t.walk, ∃ called args,
      baseReference? name n = some (called, args) ∧
        e = .noBase (Key.ofCount called args.length)) ∧
    (¬(base = none ∧ ∃ n ∈ t.walk, n.isReference = true) →
      ∃ bound final units, t.bindBase name base = .ok bound ∧
        bound.qualify imports = .ok (final, units) ∧
        t.Redirected name base imports final ∧
        (∀ unit, units.contains unit = true ↔
          ∃ called args, .remoteCall unit called args ∈ final.walk) ∧
        final.qualify imports = .ok (final, units)) := by
  have bindable : ¬(base = none ∧ ∃ n ∈ t.walk, n.isReference = true) →
      base = none → t.IsBound := by
    intro h noBase n member
    rw [Bool.eq_false_iff]
    exact fun reference => h ⟨noBase, n, member, reference⟩
  have refused : ∀ e, t.bindBase name base = .error e →
      base = none ∧ ∃ n ∈ t.walk, n.isReference = true := by
    intro e failed
    by_contra h
    rw [bindBase_of_isExpression name isExpression (bindable h)] at failed
    cases failed
  refine ⟨⟨?_, ?_⟩, ?_, ?_⟩
  · rintro ⟨e, failed⟩
    exact refused e failed
  · rintro ⟨rfl, n, member, reference⟩
    obtain ⟨-, -, _, _, -, failed⟩ := bindBase_of_reference name member reference
    exact ⟨_, failed⟩
  · intro e failed
    obtain ⟨rfl, n, member, reference⟩ := refused e failed
    obtain ⟨n, inside, called, args, isReference, failed'⟩ :=
      bindBase_of_reference name member reference
    rw [failed'] at failed
    cases failed
    exact ⟨n, inside, called, args, isReference, rfl⟩
  · intro h
    have isBound := bindBase_of_isExpression name isExpression (bindable h)
    obtain ⟨units, qualifies⟩ :=
      qualify_of_isExpression imports (isExpression_bound.trans isExpression)
    refine ⟨_, _, units, isBound, qualifies, redirected_qualified_bound name base imports t,
      fun unit => ?_, ?_⟩
    · rw [contains_units_iff qualifies, mem_remoteUnits_iff]
    · rw [qualify_qualified, qualifies]

/-- References and calls of an imported routine inside of each other, below a qualified call. -/
def nestedReferences : Tree :=
  .remoteCall "tools" "h"
    [.call "open" [.superCall [.call "open" [.baseCall "g" [.var "x"]], .call "open" []]]]

/-- In the nested tree the inner call is redirected to the source of the import as well, and nothing
is bound without a base. -/
theorem references_redirected_nested :
    nestedReferences.isExpression = true ∧
    (∃ e, nestedReferences.bindBase "f" none = .error e) ∧
    ∃ bound final units, nestedReferences.bindBase "f" (some "base") = .ok bound ∧
      bound.qualify (Table.ofList [(.ofCount "open" 1, "files")]) = .ok (final, units) ∧
      (∃ args, final.at? [0, 0, 0] = some (.remoteCall "files" "open" args) ∧ args.length = 1) ∧
      units.contains "files" = true ∧
      final.qualify (Table.ofList [(.ofCount "open" 1, "files")]) = .ok (final, units) := by
  have isExpression : nestedReferences.isExpression = true := rfl
  have inside : nestedReferences.at? [0, 0, 0] =
      some (.call "open" [.baseCall "g" [.var "x"]]) := rfl
  obtain ⟨refused, -, -⟩ := references_redirected "f" none ∅ nestedReferences isExpression
  obtain ⟨-, -, done⟩ := references_redirected "f" (some "base")
    (Table.ofList [(.ofCount "open" 1, "files")]) nestedReferences isExpression
  obtain ⟨bound, final, units, binding, qualifying, redirected, named, again⟩ := done nofun
  obtain ⟨args, inPlace, length⟩ := redirected.redirects inside rfl
  refine ⟨isExpression, refused.2 ⟨rfl, _, mem_walk_iff.2 ⟨[0, 0], rfl⟩, rfl⟩, bound, final, units,
    binding, qualifying, ⟨args, inPlace, length⟩, ?_, again⟩
  exact (named "files").2 ⟨"open", args, mem_walk_iff.2 ⟨_, inPlace⟩⟩

end Heredity.Tree
