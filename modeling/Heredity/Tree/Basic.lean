import Heredity.Key
import Heredity.Value.Basic

/-!
# Syntax trees

Routine bodies, guards and parameters are trees.  There are two sorts of nodes, expressions and
patterns, and one type for both: a declaration is taken as it is written, and where a node of the
wrong sort matters the operation that meets it says so.

* `Tree` — twelve kinds of expressions, then seven kinds of patterns.
* `Tree.isExpression` — the sort of a node; `Tree.WellSorted` asks for the right sort everywhere.
* `Tree.children` — the direct parts of a node, in the order of the source.
* `Tree.mapChildrenM`, `Tree.mapChildren` — a node rebuilt from images of its direct parts.
* `Tree.walk` — all nodes, every node before its parts; `Tree.visit` does the same with a list of
  nodes still to be visited instead of recursion, and `visit_singleton` says that they agree.
* `Tree.transformM`, `Tree.transform` — a function applied to every node, parts before the node.
* `Tree.bindings`, `Tree.references` — the names that patterns bind and that expressions mention.

**One type for both sorts.**  With two types, a transformation that replaces nodes would need two
functions and could not say what happens to a node of the wrong sort, which is an error of its own
here.  What a well-sorted tree guarantees is stated of `Tree.WellSorted` instead.

**The recursions are structural,** with one function for a tree and one for a list of trees; each
has an equation (`transform_eq`, `walk_eq`) by which later proofs unfold it for all kinds at once.
-/

namespace Heredity

/-- An expression or a pattern. -/
inductive Tree where
  /-- A value. -/
  | literal (value : Value)
  /-- The value that is bound to a name. -/
  | var (name : String)
  /-- A bare call, answered by the unit that executes the body. -/
  | call (name : String) (args : List Tree)
  /-- A call that the named unit must answer. -/
  | remoteCall (unit name : String) (args : List Tree)
  /-- A call of the routine that the enclosing one replaces. -/
  | superCall (args : List Tree)
  /-- A call of a routine of the immediate base. -/
  | baseCall (name : String) (args : List Tree)
  /-- The name of the unit that executes the body. -/
  | currentUnit
  /-- A primitive operation, by its symbol. -/
  | primitive (symbol : String) (args : List Tree)
  /-- The field of a record. -/
  | fieldAccess (subject : Tree) (field : String)
  /-- A tuple of the values of its items. -/
  | tuple (items : List Tree)
  /-- A list of the values of its items. -/
  | list (items : List Tree)
  /-- A choice between two branches. -/
  | cond (condition thenBranch elseBranch : Tree)
  /-- Matches anything and binds it to a name. -/
  | binding (name : String)
  /-- Matches anything; the name is for readers only. -/
  | wildcard (name : String)
  /-- Matches values of the same kind that are equal. -/
  | constant (value : Value)
  /-- Matches tuples item by item. -/
  | tuplePattern (items : List Tree)
  /-- Matches lists item by item. -/
  | listPattern (items : List Tree)
  /-- Matches a pattern and also binds the whole value to a name. -/
  | alias (pattern : Tree) (name : String)
  /-- A parameter that may be left out; then the value of the expression is passed. -/
  | optional (pattern value : Tree)
deriving Inhabited

namespace Tree

/-- Whether a node is an expression; otherwise it is a pattern. -/
def isExpression : Tree → Bool
  | .binding _ => false
  | .wildcard _ => false
  | .constant _ => false
  | .tuplePattern _ => false
  | .listPattern _ => false
  | .alias .. => false
  | .optional .. => false
  | _ => true

/-- The direct parts of a node, in the order of the source. -/
def children : Tree → List Tree
  | .call _ args => args
  | .remoteCall _ _ args => args
  | .superCall args => args
  | .baseCall _ args => args
  | .primitive _ args => args
  | .fieldAccess subject _ => [subject]
  | .tuple items => items
  | .list items => items
  | .cond condition thenBranch elseBranch => [condition, thenBranch, elseBranch]
  | .tuplePattern items => items
  | .listPattern items => items
  | .alias pattern _ => [pattern]
  | .optional pattern value => [pattern, value]
  | _ => []

/-- Rebuilds a node from what `f` returns for its direct parts, first to last. -/
def mapChildrenM {m : Type → Type} [Monad m] (f : Tree → m Tree) : Tree → m Tree
  | .call name args => return .call name (← args.mapM f)
  | .remoteCall unit name args => return .remoteCall unit name (← args.mapM f)
  | .superCall args => return .superCall (← args.mapM f)
  | .baseCall name args => return .baseCall name (← args.mapM f)
  | .primitive symbol args => return .primitive symbol (← args.mapM f)
  | .fieldAccess subject field => return .fieldAccess (← f subject) field
  | .tuple items => return .tuple (← items.mapM f)
  | .list items => return .list (← items.mapM f)
  | .cond condition thenBranch elseBranch =>
    return .cond (← f condition) (← f thenBranch) (← f elseBranch)
  | .tuplePattern items => return .tuplePattern (← items.mapM f)
  | .listPattern items => return .listPattern (← items.mapM f)
  | .alias pattern name => return .alias (← f pattern) name
  | .optional pattern value => return .optional (← f pattern) (← f value)
  | t => return t

/-- Rebuilds a node from the images of its direct parts. -/
def mapChildren (f : Tree → Tree) : Tree → Tree
  | .call name args => .call name (args.map f)
  | .remoteCall unit name args => .remoteCall unit name (args.map f)
  | .superCall args => .superCall (args.map f)
  | .baseCall name args => .baseCall name (args.map f)
  | .primitive symbol args => .primitive symbol (args.map f)
  | .fieldAccess subject field => .fieldAccess (f subject) field
  | .tuple items => .tuple (items.map f)
  | .list items => .list (items.map f)
  | .cond condition thenBranch elseBranch => .cond (f condition) (f thenBranch) (f elseBranch)
  | .tuplePattern items => .tuplePattern (items.map f)
  | .listPattern items => .listPattern (items.map f)
  | .alias pattern name => .alias (f pattern) name
  | .optional pattern value => .optional (f pattern) (f value)
  | t => t

/-! ### Transformations -/

mutual

/-- Applies `f` to every node: first to the parts of a node, first to last, and then to the node
that was rebuilt from the results. -/
def transformM {m : Type → Type} [Monad m] (f : Tree → m Tree) : Tree → m Tree
  | .call name args => do f (.call name (← transformAllM f args))
  | .remoteCall unit name args => do f (.remoteCall unit name (← transformAllM f args))
  | .superCall args => do f (.superCall (← transformAllM f args))
  | .baseCall name args => do f (.baseCall name (← transformAllM f args))
  | .primitive symbol args => do f (.primitive symbol (← transformAllM f args))
  | .fieldAccess subject field => do f (.fieldAccess (← transformM f subject) field)
  | .tuple items => do f (.tuple (← transformAllM f items))
  | .list items => do f (.list (← transformAllM f items))
  | .cond condition thenBranch elseBranch => do
    f (.cond (← transformM f condition) (← transformM f thenBranch) (← transformM f elseBranch))
  | .tuplePattern items => do f (.tuplePattern (← transformAllM f items))
  | .listPattern items => do f (.listPattern (← transformAllM f items))
  | .alias pattern name => do f (.alias (← transformM f pattern) name)
  | .optional pattern value => do f (.optional (← transformM f pattern) (← transformM f value))
  | .literal value => f (.literal value)
  | .var name => f (.var name)
  | .currentUnit => f .currentUnit
  | .binding name => f (.binding name)
  | .wildcard name => f (.wildcard name)
  | .constant value => f (.constant value)
termination_by structural t => t

/-- Applies `transformM f` to every tree of a list, first to last. -/
def transformAllM {m : Type → Type} [Monad m] (f : Tree → m Tree) : List Tree → m (List Tree)
  | [] => pure []
  | t :: ts => do
    let t ← transformM f t
    let ts ← transformAllM f ts
    return t :: ts
termination_by structural ts => ts

end

mutual

/-- Applies `f` to every node, to the parts before the node. -/
def transform (f : Tree → Tree) : Tree → Tree
  | .call name args => f (.call name (transformAll f args))
  | .remoteCall unit name args => f (.remoteCall unit name (transformAll f args))
  | .superCall args => f (.superCall (transformAll f args))
  | .baseCall name args => f (.baseCall name (transformAll f args))
  | .primitive symbol args => f (.primitive symbol (transformAll f args))
  | .fieldAccess subject field => f (.fieldAccess (transform f subject) field)
  | .tuple items => f (.tuple (transformAll f items))
  | .list items => f (.list (transformAll f items))
  | .cond condition thenBranch elseBranch =>
    f (.cond (transform f condition) (transform f thenBranch) (transform f elseBranch))
  | .tuplePattern items => f (.tuplePattern (transformAll f items))
  | .listPattern items => f (.listPattern (transformAll f items))
  | .alias pattern name => f (.alias (transform f pattern) name)
  | .optional pattern value => f (.optional (transform f pattern) (transform f value))
  | .literal value => f (.literal value)
  | .var name => f (.var name)
  | .currentUnit => f .currentUnit
  | .binding name => f (.binding name)
  | .wildcard name => f (.wildcard name)
  | .constant value => f (.constant value)
termination_by structural t => t

/-- Applies `transform f` to every tree of a list. -/
def transformAll (f : Tree → Tree) : List Tree → List Tree
  | [] => []
  | t :: ts => transform f t :: transformAll f ts
termination_by structural ts => ts

end

theorem transformAll_eq_map (f : Tree → Tree) (ts : List Tree) :
    transformAll f ts = ts.map (transform f) := by
  induction ts with
  | nil => rfl
  | cons t ts ih => rw [List.map_cons, ← ih]; rfl

/-- One step of a transformation: the parts are transformed, then the node. -/
theorem transform_eq (f : Tree → Tree) (t : Tree) :
    transform f t = f (t.mapChildren (transform f)) := by
  cases t <;> simp [transform, mapChildren, transformAll_eq_map]

theorem transformAllM_eq_mapM {m : Type → Type} [Monad m] [LawfulMonad m] (f : Tree → m Tree)
    (ts : List Tree) : transformAllM f ts = ts.mapM (transformM f) := by
  induction ts with
  | nil => rfl
  | cons t ts ih => rw [List.mapM_cons, ← ih]; rfl

/-- One step of a transformation with effects. -/
theorem transformM_eq {m : Type → Type} [Monad m] [LawfulMonad m] (f : Tree → m Tree) (t : Tree) :
    transformM f t = t.mapChildrenM (transformM f) >>= f := by
  cases t <;> simp [transformM, mapChildrenM, transformAllM_eq_mapM]

/-! ### Walks -/

mutual

/-- A node, then the walks of its parts in order. -/
def walk : Tree → List Tree
  | .call name args => .call name args :: walkAll args
  | .remoteCall unit name args => .remoteCall unit name args :: walkAll args
  | .superCall args => .superCall args :: walkAll args
  | .baseCall name args => .baseCall name args :: walkAll args
  | .primitive symbol args => .primitive symbol args :: walkAll args
  | .fieldAccess subject field => .fieldAccess subject field :: walk subject
  | .tuple items => .tuple items :: walkAll items
  | .list items => .list items :: walkAll items
  | .cond condition thenBranch elseBranch =>
    .cond condition thenBranch elseBranch ::
      (walk condition ++ (walk thenBranch ++ walk elseBranch))
  | .tuplePattern items => .tuplePattern items :: walkAll items
  | .listPattern items => .listPattern items :: walkAll items
  | .alias pattern name => .alias pattern name :: walk pattern
  | .optional pattern value => .optional pattern value :: (walk pattern ++ walk value)
  | .literal value => [.literal value]
  | .var name => [.var name]
  | .currentUnit => [.currentUnit]
  | .binding name => [.binding name]
  | .wildcard name => [.wildcard name]
  | .constant value => [.constant value]
termination_by structural t => t

/-- The walks of a list of trees, one after the other. -/
def walkAll : List Tree → List Tree
  | [] => []
  | t :: ts => walk t ++ walkAll ts
termination_by structural ts => ts

end

theorem walkAll_eq_flatMap (ts : List Tree) : walkAll ts = ts.flatMap walk := by
  induction ts with
  | nil => rfl
  | cons t ts ih => rw [List.flatMap_cons, ← ih]; rfl

/-- A walk is the node followed by the walks of its parts. -/
theorem walk_eq (t : Tree) : t.walk = t :: t.children.flatMap walk := by
  cases t <;> simp [walk, children, walkAll_eq_flatMap]

theorem self_mem_walk (t : Tree) : t ∈ t.walk := by
  rw [walk_eq]
  exact List.mem_cons_self

theorem walk_subset_of_mem_children {t c : Tree} (h : c ∈ t.children) : c.walk ⊆ t.walk := by
  intro n hn
  rw [walk_eq t]
  exact List.mem_cons_of_mem _ (List.mem_flatMap.2 ⟨c, h, hn⟩)

/-- The number of nodes of all trees of a list. -/
def weight (pending : List Tree) : Nat := (walkAll pending).length

/-- Visits the trees of a worklist: the first is taken off, and its parts are put in its place. -/
def visit : List Tree → List Tree
  | [] => []
  | t :: pending => t :: visit (t.children ++ pending)
termination_by pending => weight pending
decreasing_by
  simp only [weight, walkAll_eq_flatMap, List.flatMap_append, List.flatMap_cons, walk_eq t,
    List.length_append, List.length_cons]
  omega

theorem visit_eq_walkAll (pending : List Tree) : visit pending = walkAll pending := by
  fun_induction visit pending with
  | case1 => rfl
  | case2 t pending ih =>
    rw [ih, walkAll_eq_flatMap, walkAll_eq_flatMap, List.flatMap_append, List.flatMap_cons,
      walk_eq t]
    rfl

/-- The worklist visits the nodes of a tree in the order of its walk. -/
theorem visit_singleton (t : Tree) : visit [t] = t.walk := by
  rw [visit_eq_walkAll]
  simp [walkAll]

/-! ### Names -/

/-- The name that a node binds by itself. -/
def boundName? : Tree → Option String
  | .binding name => some name
  | .alias _ name => some name
  | _ => none

/-- The name that a node mentions as a variable. -/
def varName? : Tree → Option String
  | .var name => some name
  | _ => none

/-- The key of a bare call. -/
def calledKey? : Tree → Option Key
  | .call name args => some (Key.ofCount name args.length)
  | _ => none

/-- The unit that a qualified call names. -/
def remoteUnit? : Tree → Option String
  | .remoteCall unit _ _ => some unit
  | _ => none

/-- The names bound anywhere in a tree, in the order of its walk. -/
def bindings (t : Tree) : List String := t.walk.filterMap boundName?

/-- The variables mentioned anywhere in a tree, in the order of its walk. -/
def references (t : Tree) : List String := t.walk.filterMap varName?

/-- The units named by qualified calls anywhere in a tree, in the order of its walk. -/
def remoteUnits (t : Tree) : List String := t.walk.filterMap remoteUnit?

/-- The sort that a node asks of each of its parts, in order: `true` for an expression. -/
def childSorts : Tree → List Bool
  | .optional .. => [false, true]
  | t => t.children.map fun _ => t.isExpression

/-- Every node below a tree has the sort that its place asks for. -/
def WellSorted (t : Tree) : Prop :=
  ∀ n ∈ t.walk, n.children.map isExpression = n.childSorts

instance (t : Tree) : Decidable t.WellSorted :=
  inferInstanceAs (Decidable (∀ n ∈ t.walk, n.children.map isExpression = n.childSorts))

end Tree

end Heredity
