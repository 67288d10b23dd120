import Mathlib.Data.List.Basic
import Heredity.Tree.Dependence
import Heredity.Tree.Qualified

/-!
# Trees and their qualification

Qualifying goes through a tree with a set of units as its state.  What becomes of the tree does not
depend on that state, so it is a plain transformation, and the calls of the result are calls of the
tree.

* `Tree.induct` — induction along direct parts, one case for all kinds of nodes.
* `Tree.label` — the kind of a node with its own fields; `Label.node` is the way back from a label
  and parts to the node, by which rebuilding is the same for all kinds (`mapChildren_eq_node`,
  `mapChildrenM_eq_node`).
* `Yields` — a stateful computation whose result does not depend on the state.
* `Tree.qualified` — what qualifying makes of a tree; `qualify_eq_ok` says that it does.
* `call_mem_walk_qualified` — the bare calls of a qualified tree.
* `contains_eq_false_of_calls` — what a tree without certain calls does not call.
-/

namespace Heredity

/-! ## Induction -/

namespace Tree

/-- A part of a node is smaller than the node. -/
theorem sizeOf_lt_of_mem_children {t c : Tree} (h : c ∈ t.children) : sizeOf c < sizeOf t := by
  have within : ∀ {ts : List Tree}, c ∈ ts → sizeOf c < sizeOf ts := List.sizeOf_lt_of_mem
  cases t with
  | call | remoteCall | superCall | baseCall | primitive | tuple | list | tuplePattern
  | listPattern =>
    have smaller := within h
    simp only [children, call.sizeOf_spec, remoteCall.sizeOf_spec, superCall.sizeOf_spec,
      baseCall.sizeOf_spec, primitive.sizeOf_spec, tuple.sizeOf_spec, list.sizeOf_spec,
      tuplePattern.sizeOf_spec, listPattern.sizeOf_spec] at smaller ⊢
    omega
  | fieldAccess | «alias» =>
    obtain rfl := List.mem_singleton.1 h
    simp only [fieldAccess.sizeOf_spec, alias.sizeOf_spec]
    omega
  | cond condition thenBranch elseBranch =>
    have parts : c = condition ∨ c = thenBranch ∨ c = elseBranch := by simpa [children] using h
    simp only [cond.sizeOf_spec]
    rcases parts with rfl | rfl | rfl <;> omega
  | optional pattern value =>
    have parts : c = pattern ∨ c = value := by simpa [children] using h
    simp only [optional.sizeOf_spec]
    rcases parts with rfl | rfl <;> omega
  | literal | var | currentUnit | binding | wildcard | constant => cases h

/-- **Induction along direct parts.** -/
theorem induct {P : Tree → Prop} (step : ∀ t, (∀ c ∈ t.children, P c) → P t) (t : Tree) : P t :=
  step t fun c _ => induct step c
termination_by sizeOf t
decreasing_by exact sizeOf_lt_of_mem_children ‹_›

theorem children_mapChildren (f : Tree → Tree) (t : Tree) :
    (t.mapChildren f).children = t.children.map f := by
  cases t <;> rfl

end Tree

/-! ## Labels -/

/-- The kind of a node with its own fields: what is left of it without its parts. -/
inductive Label where
  | literal (value : Value)
  | var (name : String)
  | call (name : String)
  | remoteCall (unit name : String)
  | superCall
  | baseCall (name : String)
  | currentUnit
  | primitive (symbol : String)
  | fieldAccess (field : String)
  | tuple
  | list
  | cond
  | binding (name : String)
  | wildcard (name : String)
  | constant (value : Value)
  | tuplePattern
  | listPattern
  | alias (name : String)
  | optional

/-- The label of a node. -/
def Tree.label : Tree → Label
  | .literal value => .literal value
  | .var name => .var name
  | .call name _ => .call name
  | .remoteCall unit name _ => .remoteCall unit name
  | .superCall _ => .superCall
  | .baseCall name _ => .baseCall name
  | .currentUnit => .currentUnit
  | .primitive symbol _ => .primitive symbol
  | .fieldAccess _ field => .fieldAccess field
  | .tuple _ => .tuple
  | .list _ => .list
  | .cond .. => .cond
  | .binding name => .binding name
  | .wildcard name => .wildcard name
  | .constant value => .constant value
  | .tuplePattern _ => .tuplePattern
  | .listPattern _ => .listPattern
  | .alias _ name => .alias name
  | .optional .. => .optional

/-- The node with a label and parts.  Where parts are missing, any are taken, and superfluous ones
are left out, so that the label is kept in any case. -/
def Label.node : Label → List Tree → Tree
  | .literal value, _ => .literal value
  | .var name, _ => .var name
  | .call name, args => .call name args
  | .remoteCall unit name, args => .remoteCall unit name args
  | .superCall, args => .superCall args
  | .baseCall name, args => .baseCall name args
  | .currentUnit, _ => .currentUnit
  | .primitive symbol, args => .primitive symbol args
  | .fieldAccess field, parts => .fieldAccess (parts.getD 0 default) field
  | .tuple, items => .tuple items
  | .list, items => .list items
  | .cond, parts => .cond (parts.getD 0 default) (parts.getD 1 default) (parts.getD 2 default)
  | .binding name, _ => .binding name
  | .wildcard name, _ => .wildcard name
  | .constant value, _ => .constant value
  | .tuplePattern, items => .tuplePattern items
  | .listPattern, items => .listPattern items
  | .alias name, parts => .alias (parts.getD 0 default) name
  | .optional, parts => .optional (parts.getD 0 default) (parts.getD 1 default)

@[simp] theorem Label.label_node (l : Label) (parts : List Tree) : (l.node parts).label = l := by
  cases l <;> rfl

namespace Tree

/-- A tree is the node with its label and its parts. -/
theorem node_label_children (t : Tree) : t.label.node t.children = t := by
  cases t <;> rfl

/-- The parts of a node are those that it was made with, if these are as many as before. -/
theorem children_node {t : Tree} {parts : List Tree} (h : parts.length = t.children.length) :
    (t.label.node parts).children = parts := by
  cases t with
  | call | remoteCall | superCall | baseCall | primitive | tuple | list | tuplePattern
  | listPattern => rfl
  | fieldAccess | «alias» =>
    obtain ⟨_, rfl⟩ := List.length_eq_one_iff.1 h
    rfl
  | cond =>
    obtain ⟨_, _, _, rfl⟩ := List.length_eq_three.1 h
    rfl
  | optional =>
    obtain ⟨_, _, rfl⟩ := List.length_eq_two.1 h
    rfl
  | literal | var | currentUnit | binding | wildcard | constant =>
    exact (List.eq_nil_of_length_eq_zero h).symm

/-- **Rebuilding** a node keeps its label. -/
theorem mapChildren_eq_node (f : Tree → Tree) (t : Tree) :
    t.mapChildren f = t.label.node (t.children.map f) := by
  cases t <;> rfl

/-- Rebuilding a node with effects keeps its label, and the effects are those of its parts, first to
last. -/
theorem mapChildrenM_eq_node {m : Type → Type} [Monad m] [LawfulMonad m] (f : Tree → m Tree)
    (t : Tree) : t.mapChildrenM f = t.label.node <$> t.children.mapM f := by
  cases t with
  | call | remoteCall | superCall | baseCall | primitive | tuple | list | tuplePattern
  | listPattern => exact bind_pure_comp _ _
  | _ => simp [mapChildrenM, label, children, Label.node]

/-- Rebuilding a node depends on what becomes of its parts only. -/
theorem mapChildren_congr {f g : Tree → Tree} {t : Tree} (h : ∀ c ∈ t.children, f c = g c) :
    t.mapChildren f = t.mapChildren g := by
  rw [mapChildren_eq_node, mapChildren_eq_node, List.map_congr_left h]

theorem mapM_congr {m : Type → Type} [Monad m] [LawfulMonad m] {f g : Tree → m Tree}
    {ts : List Tree} (h : ∀ t ∈ ts, f t = g t) : ts.mapM f = ts.mapM g := by
  induction ts with
  | nil => rfl
  | cons t ts ih =>
    rw [List.mapM_cons, List.mapM_cons, h t List.mem_cons_self,
      ih fun t' member => h t' (List.mem_cons_of_mem t member)]

end Tree

/-! ## Trees that do not call certain keys -/

namespace Tree

variable {keys : KeySet} {t : Tree}

/-- No bare call of a tree that does not call any of certain keys is of one of them. -/
theorem contains_eq_false_of_calls (h : t.calls keys = false) {name : String} {args : List Tree}
    (member : .call name args ∈ t.walk) :
    keys.contains (Key.ofCount name args.length) = false := by
  rw [Bool.eq_false_iff] at h ⊢
  exact fun called => h (calls_iff.2 ⟨name, args, member, called⟩)

/-- The parts of a tree that does not call any of certain keys do not, either. -/
theorem calls_eq_false_of_mem_children (h : t.calls keys = false) {c : Tree}
    (part : c ∈ t.children) : c.calls keys = false := by
  rw [Bool.eq_false_iff]
  intro called
  obtain ⟨name, args, member, isKey⟩ := calls_iff.1 called
  have inside := walk_subset_of_mem_children part member
  exact Bool.false_ne_true ((contains_eq_false_of_calls h inside).symm.trans isKey)

/-- A parameter falls back on a call of one of the keys exactly if some optional part of it does. -/
theorem fallbacksCall_iff :
    fallbacksCall keys t = true ↔
      ∃ pattern value, .optional pattern value ∈ t.walk ∧ value.calls keys = true := by
  unfold fallbacksCall
  rw [List.any_eq_true]
  constructor
  · rintro ⟨value, member, calls⟩
    obtain ⟨n, inside, isFallback⟩ := List.mem_filterMap.1 member
    cases n with
    | optional pattern v =>
      cases isFallback
      exact ⟨pattern, value, inside, calls⟩
    | _ => cases isFallback
  · rintro ⟨pattern, value, inside, calls⟩
    exact ⟨value, List.mem_filterMap.2 ⟨_, inside, rfl⟩, calls⟩

end Tree

/-! ## Computations that only use their state -/

/-- The result of a computation is the same in every state. -/
def Yields {σ α : Type} (m : StateM σ α) (a : α) : Prop := ∀ s, (m.run s).1 = a

namespace Yields

variable {σ α β : Type}

theorem pure (a : α) : Yields (pure a : StateM σ α) a := fun _ => rfl

theorem bind {m : StateM σ α} {f : α → StateM σ β} {a : α} {b : β} (h : Yields m a)
    (h' : Yields (f a) b) : Yields (m >>= f) b := by
  intro s
  show ((f (m.run s).1).run (m.run s).2).1 = b
  rw [h s]
  exact h' _

theorem mapM {m : α → StateM σ β} {f : α → β} {xs : List α} (h : ∀ x ∈ xs, Yields (m x) (f x)) :
    Yields (xs.mapM m) (xs.map f) := by
  induction xs with
  | nil => exact pure []
  | cons x xs ih =>
    rw [List.mapM_cons]
    refine (h x List.mem_cons_self).bind ?_
    exact (ih fun y hy => h y (List.mem_cons_of_mem x hy)).bind (pure _)

end Yields

namespace Tree

variable {σ : Type}

/-- Rebuilding a node yields the node of what its parts yield. -/
theorem yields_mapChildrenM {m : Tree → StateM σ Tree} {f : Tree → Tree} {t : Tree}
    (h : ∀ c ∈ t.children, Yields (m c) (f c)) :
    Yields (t.mapChildrenM m) (t.mapChildren f) := by
  rw [mapChildrenM_eq_node, mapChildren_eq_node, map_eq_pure_bind]
  exact (Yields.mapM h).bind (.pure _)

/-- **Transformations.**  If no node depends on the state, the tree does not. -/
theorem yields_transformM {m : Tree → StateM σ Tree} {f : Tree → Tree}
    (h : ∀ t, Yields (m t) (f t)) (t : Tree) : Yields (transformM m t) (transform f t) := by
  induction t using induct with
  | step t ih =>
    rw [transformM_eq, transform_eq]
    exact (yields_mapChildrenM ih).bind (h _)

/-! ## Qualified trees -/

/-- What qualifying makes of a node. -/
def qualifiedNode (imports : Table Key String) : Tree → Tree
  | .call name args =>
    match imports.get? (Key.ofCount name args.length) with
    | some unit => .remoteCall unit name args
    | none => .call name args
  | t => t

/-- What qualifying makes of a tree. -/
def qualified (imports : Table Key String) : Tree → Tree := transform (qualifiedNode imports)

theorem yields_qualifyNode (imports : Table Key String) (t : Tree) :
    Yields (qualifyNode imports t) (qualifiedNode imports t) := by
  cases t with
  | call name args =>
    intro units
    simp only [qualifyNode, qualifiedNode]
    cases imports.get? (Key.ofCount name args.length) <;> rfl
  | _ => exact fun _ => rfl

/-- Whether a rebuilt node is an expression can be seen from the node. -/
theorem isExpression_mapChildren (f : Tree → Tree) (t : Tree) :
    (t.mapChildren f).isExpression = t.isExpression := by
  cases t <;> rfl

theorem isExpression_qualified (imports : Table Key String) (t : Tree) :
    (qualified imports t).isExpression = t.isExpression := by
  rw [qualified, transform_eq, ← isExpression_mapChildren (transform (qualifiedNode imports)) t]
  generalize t.mapChildren (transform (qualifiedNode imports)) = rebuilt
  unfold qualifiedNode
  split
  · split <;> rfl
  · rfl

/-- **Qualifying** gives the qualified tree, if it gives one. -/
theorem qualify_eq_ok {imports : Table Key String} {t t' : Tree} {units : NameSet}
    (h : t.qualify imports = .ok (t', units)) : t' = qualified imports t := by
  have yields := yields_transformM (yields_qualifyNode imports) t ∅
  unfold qualify at h
  cases outcome : (transformM (qualifyNode imports) t).run ∅ with
  | mk t₁ units₁ =>
    rw [outcome] at h yields
    simp only [expression] at h
    split at h
    · cases h
      exact yields
    · cases h

/-- Only expressions can be qualified. -/
theorem qualify_of_isExpression (imports : Table Key String) {t : Tree}
    (h : t.isExpression = true) :
    ∃ units, t.qualify imports = .ok (qualified imports t, units) := by
  have yields := yields_transformM (yields_qualifyNode imports) t ∅
  unfold qualify
  cases outcome : (transformM (qualifyNode imports) t).run ∅ with
  | mk t' units =>
    rw [outcome] at yields
    obtain rfl : t' = qualified imports t := yields
    refine ⟨units, ?_⟩
    simp only [expression, isExpression_qualified, h]
    rfl

theorem isExpression_of_qualify {imports : Table Key String} {t t' : Tree} {units : NameSet}
    (h : t.qualify imports = .ok (t', units)) : t'.isExpression = true := by
  unfold qualify at h
  cases outcome : (transformM (qualifyNode imports) t).run ∅ with
  | mk t₁ units₁ =>
    rw [outcome] at h
    simp only [expression] at h
    split at h
    · next isExpression =>
      cases h
      exact isExpression
    · cases h

/-- One step of qualifying: the parts are qualified, then the node. -/
theorem qualified_eq (imports : Table Key String) (t : Tree) :
    qualified imports t = qualifiedNode imports (t.mapChildren (qualified imports)) :=
  transform_eq _ t

/-- A bare call of a routine that is not imported stays. -/
theorem qualifiedNode_call {imports : Table Key String} {name : String} {args : List Tree}
    (absent : imports.get? (Key.ofCount name args.length) = none) :
    qualifiedNode imports (.call name args) = .call name args := by
  rw [qualifiedNode, absent]

theorem children_qualifiedNode (imports : Table Key String) (t : Tree) :
    (qualifiedNode imports t).children = t.children := by
  unfold qualifiedNode
  split
  · split <;> rfl
  · rfl

theorem children_qualified (imports : Table Key String) (t : Tree) :
    (qualified imports t).children = t.children.map (qualified imports) := by
  rw [qualified_eq, children_qualifiedNode, children_mapChildren]

/-- Nothing is qualified where nothing is imported. -/
theorem qualified_empty (t : Tree) : qualified ∅ t = t := by
  induction t using induct with
  | step t ih =>
    rw [qualified_eq, mapChildren_congr ih]
    cases t <;> simp [mapChildren, qualifiedNode]

/-- A bare call that qualifying leaves is a bare call of a routine that is not imported. -/
theorem eq_call_of_qualified {imports : Table Key String} {t : Tree} {name : String}
    {args : List Tree} (h : qualified imports t = .call name args) :
    ∃ args', t = .call name args' ∧ args'.length = args.length ∧
      imports.get? (Key.ofCount name args.length) = none := by
  rw [qualified_eq] at h
  cases t with
  | call name' args' =>
    simp only [mapChildren, qualifiedNode] at h
    split at h
    · cases h
    · next unimported =>
      cases h
      exact ⟨args', rfl, (List.length_map _).symm, unimported⟩
  | _ => cases h

/-- **The bare calls of a qualified tree** are bare calls of the tree, of routines that are not
imported. -/
theorem call_mem_walk_qualified {imports : Table Key String} {t : Tree} {name : String}
    {args : List Tree} (h : .call name args ∈ (qualified imports t).walk) :
    ∃ args', .call name args' ∈ t.walk ∧ args'.length = args.length := by
  induction t using induct with
  | step t ih =>
    rw [walk_eq, children_qualified] at h
    rcases List.mem_cons.1 h with root | below
    · obtain ⟨args', rfl, length, -⟩ := eq_call_of_qualified root.symm
      exact ⟨args', self_mem_walk _, length⟩
    · obtain ⟨c', part, inside⟩ := List.mem_flatMap.1 below
      obtain ⟨c, original, rfl⟩ := List.mem_map.1 part
      obtain ⟨args', inside', length⟩ := ih c original inside
      exact ⟨args', walk_subset_of_mem_children original inside', length⟩

end Tree

end Heredity
