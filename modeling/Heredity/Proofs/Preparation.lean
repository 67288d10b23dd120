import Heredity.Proofs.Operations

/-!
# Preparing expressions

A session prepares what it declares: references to the base are bound to its name, and bare calls of
imported routines are qualified with their sources.  Both go through a tree and keep its shape, so
what becomes of a part is found where the part was.

* `Tree.at?` — the part of a tree at an *address*, the positions that lead to it; `mem_walk_iff`
  says that the nodes of a tree are what is at its addresses.
* `Tree.bound` — what binding makes of a tree; `bindBase_eq_ok` says that it does, and that nothing
  in the result refers to the base (`Tree.IsBound`).
* `Collects` — a stateful computation that adds certain names to its state, in every state.
  `contains_units_iff` is what it is for: the units that qualifying returns are those that the
  result names.
* `Session.prepared` — what preparing makes of an expression; `prepareAll_eq_ok` says what a
  declaration gets.
-/

namespace Heredity

/-! ## Addresses -/

namespace Tree

/-- The part of a tree at an address: the positions, among the direct parts, that lead to it. -/
def at? (t : Tree) : List Nat → Option Tree
  | [] => some t
  | i :: path => t.children[i]?.bind fun c => c.at? path

@[simp] theorem at?_nil (t : Tree) : t.at? [] = some t := rfl

theorem at?_cons (t : Tree) (i : Nat) (path : List Nat) :
    t.at? (i :: path) = t.children[i]?.bind fun c => c.at? path := rfl

/-- An address below a direct part. -/
theorem at?_cons_of_child {t c : Tree} {i : Nat} (child : t.children[i]? = some c)
    (path : List Nat) : t.at? (i :: path) = c.at? path := by
  rw [at?_cons, child]
  rfl

/-- The nodes of a tree are what is at its addresses. -/
theorem mem_walk_iff {t n : Tree} : (n ∈ t.walk) ↔ ∃ path, t.at? path = some n := by
  constructor
  · intro member
    induction t using induct with
    | step t ih =>
      rw [walk_eq] at member
      rcases List.mem_cons.1 member with rfl | below
      · exact ⟨[], rfl⟩
      · obtain ⟨c, part, inside⟩ := List.mem_flatMap.1 below
        obtain ⟨i, child⟩ := List.mem_iff_getElem?.1 part
        obtain ⟨path, found⟩ := ih c part inside
        exact ⟨i :: path, (at?_cons_of_child child path).trans found⟩
  · rintro ⟨path, found⟩
    induction path generalizing t with
    | nil =>
      cases found
      exact self_mem_walk _
    | cons i path ih =>
      obtain ⟨c, child, found⟩ := Option.bind_eq_some_iff.1 found
      exact walk_subset_of_mem_children (List.mem_iff_getElem?.2 ⟨i, child⟩) (ih found)

/-- What a transformation that keeps parts makes of the part at an address is at that address. -/
theorem at?_transform {f : Tree → Tree} (keeps : ∀ t, (f t).children = t.children) (t : Tree)
    (path : List Nat) : (transform f t).at? path = (t.at? path).map (transform f) := by
  induction path generalizing t with
  | nil => rfl
  | cons i path ih =>
    rw [at?_cons, at?_cons, transform_eq, keeps, children_mapChildren, List.getElem?_map]
    cases t.children[i]? with
    | none => rfl
    | some c => exact ih c

/-! ## References to the base -/

/-- Whether a node refers to the base. -/
def isReference : Tree → Bool
  | .superCall _ => true
  | .baseCall .. => true
  | _ => false

/-- No node of a tree refers to the base. -/
def IsBound (t : Tree) : Prop := ∀ n ∈ t.walk, n.isReference = false

instance (t : Tree) : Decidable t.IsBound :=
  inferInstanceAs (Decidable (∀ n ∈ t.walk, n.isReference = false))

/-- A tree is bound if its node is no reference and its parts are bound. -/
theorem isBound_iff {t : Tree} :
    t.IsBound ↔ t.isReference = false ∧ ∀ c ∈ t.children, c.IsBound := by
  unfold IsBound
  rw [walk_eq]
  simp only [List.mem_cons, List.mem_flatMap]
  constructor
  · intro h
    exact ⟨h t (.inl rfl), fun c part n inside => h n (.inr ⟨c, part, inside⟩)⟩
  · rintro ⟨root, below⟩ n (rfl | ⟨c, part, inside⟩)
    · exact root
    · exact below c part n inside

/-- What binding makes of a node. -/
def boundNode (name : String) (base : Option String) (t : Tree) : Tree :=
  match baseReference? name t, base with
  | some (target, args), some base => .remoteCall base target args
  | _, _ => t

/-- What binding makes of a tree. -/
def bound (name : String) (base : Option String) : Tree → Tree := transform (boundNode name base)

theorem children_boundNode (name : String) (base : Option String) (t : Tree) :
    (boundNode name base t).children = t.children := by
  unfold boundNode
  split
  · next target args base' reference =>
    cases t with
    | superCall | baseCall =>
      cases reference
      rfl
    | _ => cases reference
  · rfl

/-- Binding a node gives the bound node, which does not refer to the base. -/
theorem bindBaseNode_eq_ok {name : String} {base : Option String} {t t' : Tree}
    (h : bindBaseNode name base t = .ok t') :
    t' = boundNode name base t ∧ t'.isReference = false := by
  cases t with
  | superCall args | baseCall target args =>
    cases base with
    | none => cases h
    | some base =>
      cases h
      exact ⟨rfl, rfl⟩
  | _ =>
    cases h
    exact ⟨by cases base <;> rfl, rfl⟩

theorem mapM_eq_ok {m : Tree → Except Error Tree} {f : Tree → Tree} {P : Tree → Prop}
    {ts ts' : List Tree} (h : ∀ t ∈ ts, ∀ t', m t = .ok t' → t' = f t ∧ P t')
    (ok : ts.mapM m = .ok ts') : ts' = ts.map f ∧ ∀ t ∈ ts', P t := by
  have pairs := forall₂_of_mapM_eq_ok ok
  clear ok
  induction pairs with
  | nil => exact ⟨rfl, fun _ member => nomatch member⟩
  | @cons t t' ts ts' first _ ih =>
    obtain ⟨rfl, root⟩ := h t List.mem_cons_self t' first
    obtain ⟨rfl, rest⟩ := ih fun t member => h t (List.mem_cons_of_mem _ member)
    exact ⟨rfl, List.forall_mem_cons.2 ⟨root, rest⟩⟩

/-- A node that is rebuilt from what becomes of its parts has these parts. -/
theorem mapChildrenM_eq_ok {m : Tree → Except Error Tree} {f : Tree → Tree} {P : Tree → Prop}
    {t t' : Tree} (h : ∀ c ∈ t.children, ∀ c', m c = .ok c' → c' = f c ∧ P c')
    (ok : t.mapChildrenM m = .ok t') : t' = t.mapChildren f ∧ ∀ c ∈ t'.children, P c := by
  rw [mapChildrenM_eq_node, map_eq_pure_bind] at ok
  obtain ⟨parts, each, rebuilt⟩ := exists_of_bind_eq_ok ok
  obtain ⟨rfl, all⟩ := mapM_eq_ok h each
  cases rebuilt
  refine ⟨(mapChildren_eq_node f t).symm, ?_⟩
  rwa [children_node (List.length_map f)]

/-- **Binding** gives the bound tree, in which nothing refers to the base. -/
theorem transformM_bindBaseNode_eq_ok {name : String} {base : Option String} {t t' : Tree}
    (h : transformM (bindBaseNode name base) t = .ok t') : t' = bound name base t ∧ t'.IsBound := by
  induction t using induct generalizing t' with
  | step t ih =>
    rw [transformM_eq] at h
    cases rebuilt : t.mapChildrenM (transformM (bindBaseNode name base)) with
    | error e =>
      rw [rebuilt] at h
      cases h
    | ok n =>
      rw [rebuilt] at h
      obtain ⟨rfl, parts⟩ := mapChildrenM_eq_ok (fun c part c' => ih c part) rebuilt
      obtain ⟨rfl, root⟩ := bindBaseNode_eq_ok h
      refine ⟨(transform_eq _ t).symm, isBound_iff.2 ⟨root, fun c part => ?_⟩⟩
      rw [children_boundNode] at part
      exact parts c part

theorem bindBase_eq_ok {name : String} {base : Option String} {t t' : Tree}
    (h : t.bindBase name base = .ok t') : t' = bound name base t ∧ t'.IsBound := by
  unfold bindBase at h
  cases transformed : transformM (bindBaseNode name base) t with
  | error e =>
    rw [transformed] at h
    cases h
  | ok t₁ =>
    rw [transformed] at h
    simp only [bind, Except.bind, expression] at h
    split at h
    · cases h
      exact transformM_bindBaseNode_eq_ok transformed
    · cases h

/-- Qualifying refers to no base. -/
theorem IsBound.qualified {t : Tree} (h : t.IsBound) (imports : Table Key String) :
    (qualified imports t).IsBound := by
  induction t using induct with
  | step t ih =>
    obtain ⟨root, parts⟩ := isBound_iff.1 h
    refine isBound_iff.2 ⟨?_, fun c part => ?_⟩
    · rw [qualified_eq]
      cases t with
      | superCall | baseCall => cases root
      | call name args =>
        simp only [mapChildren, qualifiedNode]
        split <;> rfl
      | _ => rfl
    · rw [children_qualified] at part
      obtain ⟨original, isPart, rfl⟩ := List.mem_map.1 part
      exact ih original isPart (parts original isPart)

/-! ## The units of qualified calls -/

/-- The units that the qualified calls of a tree name are that of its node and those of its
parts. -/
theorem remoteUnits_eq (t : Tree) :
    t.remoteUnits = t.remoteUnit?.toList ++ t.children.flatMap remoteUnits := by
  unfold remoteUnits
  rw [walk_eq, List.filterMap_cons, List.filterMap_flatMap]
  cases t.remoteUnit? <;> rfl

end Tree

/-- A computation on a set of names yields a result in every state and adds certain names. -/
def Collects {α : Type} (m : StateM NameSet α) (a : α) (names : List String) : Prop :=
  ∀ s : NameSet, (m.run s).1 = a ∧
    ∀ u, (m.run s).2.contains u = true ↔ s.contains u = true ∨ u ∈ names

namespace Collects

variable {α β : Type} {names names' : List String}

theorem pure (a : α) : Collects (pure a : StateM NameSet α) a [] :=
  fun _ => ⟨rfl, fun _ => ⟨.inl, fun h => h.resolve_right nofun⟩⟩

theorem bind {m : StateM NameSet α} {f : α → StateM NameSet β} {a : α} {b : β}
    (h : Collects m a names) (h' : Collects (f a) b names') :
    Collects (m >>= f) b (names ++ names') := by
  intro s
  obtain ⟨first, added⟩ := h s
  obtain ⟨second, added'⟩ := h' (m.run s).2
  have run : (m >>= f).run s = (f a).run (m.run s).2 := by
    show (f (m.run s).1).run (m.run s).2 = _
    rw [first]
  rw [run]
  refine ⟨second, fun u => ?_⟩
  rw [added', added, List.mem_append, or_assoc]

theorem map {m : StateM NameSet α} {a : α} (h : Collects m a names) (f : α → β) :
    Collects (m >>= fun a => Pure.pure (f a)) (f a) names :=
  List.append_nil names ▸ h.bind (pure (f a))

theorem mapM {m : α → StateM NameSet β} {f : α → β} {g : α → List String} {xs : List α}
    (h : ∀ x ∈ xs, Collects (m x) (f x) (g x)) :
    Collects (xs.mapM m) (xs.map f) (xs.flatMap g) := by
  induction xs with
  | nil => exact pure []
  | cons x xs ih =>
    rw [List.mapM_cons, List.flatMap_cons]
    refine (h x List.mem_cons_self).bind ?_
    exact (ih fun y member => h y (List.mem_cons_of_mem x member)).map _

theorem mono {m : StateM NameSet α} {a : α} (h : Collects m a names)
    (same : ∀ u, u ∈ names ↔ u ∈ names') : Collects m a names' := by
  intro s
  obtain ⟨result, added⟩ := h s
  exact ⟨result, fun u => by rw [added, same]⟩

end Collects

namespace Tree

theorem collects_mapChildrenM {m : Tree → StateM NameSet Tree} {f : Tree → Tree}
    {g : Tree → List String} {t : Tree} (h : ∀ c ∈ t.children, Collects (m c) (f c) (g c)) :
    Collects (t.mapChildrenM m) (t.mapChildren f) (t.children.flatMap g) := by
  rw [mapChildrenM_eq_node, mapChildren_eq_node, map_eq_pure_bind]
  exact (Collects.mapM h).map _

/-- Qualifying a node adds the unit that the qualified node names. -/
theorem collects_qualifyNode (imports : Table Key String) (t : Tree) :
    Collects (qualifyNode imports t) (qualifiedNode imports t)
      (qualifiedNode imports t).remoteUnit?.toList := by
  have adds : ∀ (t' : Tree) (unit : String), Collects
      (do modify (·.add unit); return t' : StateM NameSet Tree) t' [unit] := by
    intro t' unit s
    refine ⟨rfl, fun u => ?_⟩
    show (s.add unit).contains u = true ↔ _
    rw [OrderedSet.contains_add, Bool.or_eq_true, beq_iff_eq, List.mem_singleton, or_comm,
      @eq_comm _ unit u]
  cases t with
  | call name args =>
    simp only [qualifyNode, qualifiedNode]
    cases imports.get? (Key.ofCount name args.length) with
    | some unit => exact adds _ unit
    | none => exact .pure _
  | remoteCall unit name args => exact adds _ unit
  | _ => exact .pure _

theorem collects_qualify (imports : Table Key String) (t : Tree) :
    Collects (transformM (qualifyNode imports) t) (qualified imports t)
      (qualified imports t).remoteUnits := by
  induction t using induct with
  | step t ih =>
    rw [transformM_eq, qualified_eq]
    refine ((collects_mapChildrenM ih).bind (collects_qualifyNode imports _)).mono fun u => ?_
    rw [remoteUnits_eq, children_qualifiedNode, children_mapChildren, List.flatMap_map]
    simp only [List.mem_append]
    exact or_comm

/-- Qualifying gives the units that the qualified tree names. -/
theorem contains_units_iff {imports : Table Key String} {t t' : Tree} {units : NameSet}
    (h : t.qualify imports = .ok (t', units)) (u : String) :
    units.contains u = true ↔ u ∈ t'.remoteUnits := by
  obtain ⟨yields, added⟩ := collects_qualify imports t ∅
  unfold qualify at h
  cases outcome : (transformM (qualifyNode imports) t).run ∅ with
  | mk t₁ units₁ =>
    rw [outcome] at h yields added
    obtain ⟨t₂, isExpression, same⟩ := exists_of_bind_eq_ok h
    unfold expression at isExpression
    split at isExpression
    · cases isExpression
      cases same
      rw [added, ← yields]
      simp
    · cases isExpression

end Tree

/-! ## Preparing -/

namespace Session

variable {store : Store} {d : Draft}

/-- What preparing makes of an expression. -/
def prepared (d : Draft) (name : String) (expr : Tree) : Tree :=
  (expr.bound name d.base).qualified d.imports

/-- **Preparing** gives the prepared expression, which refers to no base, and the units that its
qualified calls name. -/
theorem prepare_eq_ok {name : String} {expr t : Tree} {units : NameSet}
    (h : prepare store d name expr = .ok (t, units)) :
    t = prepared d name expr ∧ t.IsBound ∧ ∀ u, units.contains u = true ↔ u ∈ t.remoteUnits := by
  obtain ⟨_, -, h⟩ := exists_of_bind_eq_ok h
  obtain ⟨bound, binding, h⟩ := exists_of_bind_eq_ok h
  obtain ⟨rfl, isBound⟩ := Tree.bindBase_eq_ok binding
  obtain rfl := Tree.qualify_eq_ok h
  exact ⟨rfl, isBound.qualified d.imports, Tree.contains_units_iff h⟩

theorem map_fst_of_prepare {name : String} {written : List Tree} {results : List (Tree × NameSet)}
    (h : List.Forall₂ (fun expr result => prepare store d name expr = .ok result) written results) :
    results.map Prod.fst = written.map (prepared d name) := by
  induction h with
  | nil => rfl
  | cons first _ ih => rw [List.map_cons, List.map_cons, ih, (prepare_eq_ok first).1]

theorem contains_foldl_union (results : List (Tree × NameSet)) (own : NameSet) (u : String) :
    (results.foldl (fun units g => units.union g.2) own).contains u = true ↔
      own.contains u = true ∨ ∃ g ∈ results, g.2.contains u = true := by
  induction results generalizing own with
  | nil => simp
  | cons g results ih =>
    rw [List.foldl_cons, ih, OrderedSet.contains_union, Bool.or_eq_true]
    simp [or_assoc]

/-- The body and the guards of a declaration are prepared, and their units are noted. -/
theorem prepareAll_eq_ok {declaration : Declaration} {body : Tree} {guards : List Tree}
    {units : NameSet} (h : prepareAll store d declaration = .ok (body, guards, units)) :
    body = prepared d declaration.name declaration.body ∧
      guards = declaration.guards.map (prepared d declaration.name) ∧
      (∀ t ∈ body :: guards, t.IsBound) ∧
      ∀ u, units.contains u = true ↔ ∃ t ∈ body :: guards, u ∈ t.remoteUnits := by
  obtain ⟨⟨body', own⟩, preparing, h⟩ := exists_of_bind_eq_ok h
  obtain ⟨results, each, h⟩ := exists_of_bind_eq_ok h
  cases h
  obtain ⟨rfl, isBound, ofBody⟩ := prepare_eq_ok preparing
  have pairs := forall₂_of_mapM_eq_ok each
  have ofGuards : ∀ g ∈ results,
      g.1.IsBound ∧ ∀ u, g.2.contains u = true ↔ u ∈ g.1.remoteUnits := by
    intro g member
    obtain ⟨written, -, done⟩ := exists_left_of_forall₂ pairs member
    exact (prepare_eq_ok done).2
  refine ⟨rfl, map_fst_of_prepare pairs,
    List.forall_mem_cons.2 ⟨isBound, fun t member => ?_⟩, fun u => ?_⟩
  · obtain ⟨g, isGuard, rfl⟩ := List.mem_map.1 member
    exact (ofGuards g isGuard).1
  · rw [contains_foldl_union, ofBody, List.exists_mem_cons_iff]
    refine or_congr_right ⟨?_, ?_⟩
    · rintro ⟨g, member, names⟩
      exact ⟨g.1, List.mem_map_of_mem member, ((ofGuards g member).2 u).1 names⟩
    · rintro ⟨t, member, names⟩
      obtain ⟨g, isGuard, rfl⟩ := List.mem_map.1 member
      exact ⟨g, isGuard, ((ofGuards g isGuard).2 u).2 names⟩

end Session

end Heredity
