import Mathlib.Data.List.Perm.Basic
import Heredity.Proofs.Trees

/-!
# Traversals

Trees are gone through in three ways: the nodes are listed, a node is rebuilt from what becomes of
its parts, and a function is applied to all nodes.  Each of them knows the kinds of nodes for
itself, so a part could be missed by one and not by the others.  If a call of a private routine were
not listed, the routine would be copied; if it were not rewritten, the copy would call something
else.  Nothing is missed.

* `Walker` — a walk that keeps a stack, between two rounds.  `Walker.after` goes on for a number of
  rounds, and `visited_after_start` is what has been visited then.
* `view_mapChildrenM` — what rebuilding leaves of a node, and what its parts are.
* `Tree.upward` — the nodes of a tree, every node after its parts.
* `Tree.noting` — a function that also notes the labels of the nodes that it is applied to;
  `notes_transformM` says what a transformation applies its function to.
* `Tree.Occurs` — a node occurs in a tree, with one rule for each place where a part can stand;
  `mem_walk_iff_occurs` says that these are the nodes of the walk.
* `traversals_agree` — all of this for one tree, and what it means for looking for calls.

**Occurrence has rules of its own.**  If it went by `Tree.children`, a part that is left out there
would not occur at all, and nothing could be missed by definition.

**Functions may have effects.**  Renaming is a plain function, but qualifying collects units and
binding may fail.  Rebuilding and transforming are treated for every lawful monad, and
`transformM_pure` leads back to plain functions.
-/

namespace Heredity

/-! ## The walk with a stack -/

/-- A walk that keeps a stack, between two rounds. -/
structure Walker where
  /-- What is still to be visited, the next node last. -/
  stack : List Tree
  /-- The nodes that have been visited. -/
  visited : List Tree

namespace Walker

/-- The walk of a tree before its first round. -/
def start (t : Tree) : Walker := ⟨[t], []⟩

/-- One round.  The last node of the stack is taken off and visited, and its parts are put on it in
reverse order, so that the first of them is next.  With an empty stack the walk is over. -/
def next (w : Walker) : Option Walker :=
  w.stack.getLast?.map fun t => ⟨w.stack.dropLast ++ t.children.reverse, w.visited ++ [t]⟩

/-- The walk after a number of rounds, if it is not over before. -/
def after (w : Walker) : Nat → Option Walker
  | 0 => some w
  | rounds + 1 => (w.after rounds).bind next

variable {w w' : Walker} {t : Tree} {rounds : Nat}

theorem next_eq_none_iff : w.next = none ↔ w.stack = [] := by
  rw [next, Option.map_eq_none_iff, List.getLast?_eq_none_iff]

/-- What one round does. -/
theorem exists_of_next (h : w.next = some w') :
    ∃ t pending, w.stack = pending ++ [t] ∧ w'.stack = pending ++ t.children.reverse ∧
      w'.visited = w.visited ++ [t] := by
  obtain ⟨t, top, rfl⟩ := Option.map_eq_some_iff.1 h
  obtain ⟨pending, stack⟩ := List.getLast?_eq_some_iff.1 top
  exact ⟨t, pending, stack, by rw [stack, List.dropLast_concat], rfl⟩

/-- **One round** does not change what will have been visited in the end: what has been visited,
followed by the visits that the stack, read from its top, leads to. -/
theorem visited_append_visit_next (h : w.next = some w') :
    w'.visited ++ Tree.visit w'.stack.reverse = w.visited ++ Tree.visit w.stack.reverse := by
  obtain ⟨t, pending, stack, stack', visited⟩ := exists_of_next h
  have top : w.stack.reverse = t :: pending.reverse := by
    rw [stack, List.reverse_append, List.reverse_singleton, List.singleton_append]
  have top' : w'.stack.reverse = t.children ++ pending.reverse := by
    rw [stack', List.reverse_append, List.reverse_reverse]
  rw [top, top', visited, Tree.visit, List.append_assoc, List.singleton_append]

/-- **Any number of rounds** leads to the walk of the tree in the end, and a round visits one
node. -/
theorem walk_of_after_start (h : (start t).after rounds = some w) :
    w.visited ++ Tree.visit w.stack.reverse = t.walk ∧ w.visited.length = rounds := by
  induction rounds generalizing w with
  | zero =>
    cases h
    exact ⟨Tree.visit_singleton t, rfl⟩
  | succ rounds ih =>
    obtain ⟨w', before, round⟩ := Option.bind_eq_some_iff.1 h
    obtain ⟨inTheEnd, length⟩ := ih before
    refine ⟨(visited_append_visit_next round).trans inTheEnd, ?_⟩
    obtain ⟨_, _, -, -, visited⟩ := exists_of_next round
    rw [visited, List.length_append, length, List.length_singleton]

/-- There are as many rounds as nodes. -/
theorem exists_after_start (h : rounds ≤ t.walk.length) :
    ∃ w, (start t).after rounds = some w := by
  induction rounds with
  | zero => exact ⟨_, rfl⟩
  | succ rounds ih =>
    obtain ⟨w, before⟩ := ih (Nat.le_of_succ_le h)
    cases round : w.next with
    | some w' => exact ⟨w', by rw [after, before, Option.bind_some, round]⟩
    | none =>
      -- An empty stack would mean that all nodes have been visited, in fewer rounds.
      obtain ⟨inTheEnd, length⟩ := walk_of_after_start before
      rw [next_eq_none_iff.1 round, List.reverse_nil, Tree.visit, List.append_nil] at inTheEnd
      rw [inTheEnd] at length
      omega

/-- **The walk with a stack** visits the nodes in the order of `Tree.walk`, one in each round, and
it is over when all have been visited. -/
theorem visited_after_start (t : Tree) (rounds : Nat) :
    ((start t).after rounds).map visited =
      if rounds ≤ t.walk.length then some (t.walk.take rounds) else none := by
  cases outcome : (start t).after rounds with
  | some w =>
    obtain ⟨inTheEnd, length⟩ := walk_of_after_start outcome
    have within : rounds ≤ t.walk.length := by
      rw [← inTheEnd, List.length_append]
      omega
    rw [if_pos within, ← inTheEnd, List.take_left' length]
    rfl
  | none =>
    have beyond : ¬rounds ≤ t.walk.length := by
      intro within
      obtain ⟨w, found⟩ := exists_after_start within
      rw [outcome] at found
      cases found
    rw [if_neg beyond]
    rfl

end Walker

/-! ## Rebuilding -/

namespace Tree

/-- Nothing of a tree is outside of its label and its parts. -/
theorem eq_of_label_of_children {s t : Tree} (label : s.label = t.label)
    (children : s.children = t.children) : s = t := by
  rw [← node_label_children s, label, children, node_label_children]

theorem eq_mapChildren_iff (f : Tree → Tree) {s t : Tree} :
    s = t.mapChildren f ↔ s.label = t.label ∧ s.children = t.children.map f := by
  have label : (t.mapChildren f).label = t.label := by
    rw [mapChildren_eq_node, Label.label_node]
  constructor
  · rintro rfl
    exact ⟨label, children_mapChildren f t⟩
  · rintro ⟨sameLabel, images⟩
    exact eq_of_label_of_children (sameLabel.trans label.symm)
      (images.trans (children_mapChildren f t).symm)

variable {m : Type → Type} [Monad m] [LawfulMonad m]

/-- **Rebuilding with effects** keeps the label, and the parts are what comes out for the parts, in
their order. -/
theorem view_mapChildrenM (f : Tree → m Tree) (t : Tree) :
    (fun s => (s.label, s.children)) <$> t.mapChildrenM f =
      (fun parts => (t.label, parts)) <$> t.children.mapM f := by
  cases t <;> simp [mapChildrenM, label, children]

/-! ## Transforming -/

/-- One step of a transformation: the parts are transformed, first to last, and then the function is
applied to the node with these parts. -/
theorem transformM_eq_node (f : Tree → m Tree) (t : Tree) :
    transformM f t = t.children.mapM (transformM f) >>= fun parts => f (t.label.node parts) := by
  rw [transformM_eq, mapChildrenM_eq_node, bind_map_left]

/-- A transformation with a function that has no effects. -/
theorem transformM_pure (f : Tree → Tree) (t : Tree) :
    transformM (fun n => pure (f n)) t = (pure (t.transform f) : m Tree) := by
  induction t using induct with
  | step t ih =>
    rw [transformM_eq_node, mapM_congr ih, List.mapM_pure, pure_bind, transform_eq f t,
      mapChildren_eq_node]

/-- All nodes of a tree, every node after its parts. -/
def upward (t : Tree) : List Tree := (t.children.attach.flatMap fun c => upward c.1) ++ [t]
termination_by sizeOf t
decreasing_by exact sizeOf_lt_of_mem_children c.2

theorem upward_eq (t : Tree) : t.upward = t.children.flatMap upward ++ [t] := by
  rw [upward]
  simp

/-- The nodes of a tree are the same upward and in the order of its walk, each as often. -/
theorem upward_perm_walk (t : Tree) : t.upward.Perm t.walk := by
  induction t using induct with
  | step t ih =>
    rw [upward_eq, walk_eq]
    exact (List.perm_append_singleton t _).trans ((List.Perm.flatMap_left _ ih).cons t)

end Tree

section

variable {m : Type → Type} [Monad m] {α β : Type} {labels labels' : List Label}

/-- Does what `f` does, and notes the label of the node that it is applied to. -/
def Tree.noting (f : Tree → m Tree) (n : Tree) : StateT (List Label) m Tree := do
  modify (· ++ [n.label])
  f n

/-- A computation does what another one does and notes certain labels besides. -/
def Notes (noted : StateT (List Label) m α) (plain : m α) (labels : List Label) : Prop :=
  ∀ seen, noted.run seen = (fun a => (a, seen ++ labels)) <$> plain

namespace Notes

variable [LawfulMonad m]

theorem pure (a : α) : Notes (Pure.pure a : StateT (List Label) m α) (Pure.pure a) [] := by
  intro seen
  rw [StateT.run_pure, map_pure, List.append_nil]

theorem bind {noted : StateT (List Label) m α} {plain : m α}
    {noted' : α → StateT (List Label) m β} {plain' : α → m β} (h : Notes noted plain labels)
    (h' : ∀ a, Notes (noted' a) (plain' a) labels') :
    Notes (noted >>= noted') (plain >>= plain') (labels ++ labels') := by
  intro seen
  rw [StateT.run_bind, h seen, bind_map_left, map_bind]
  refine bind_congr fun a => ?_
  rw [h' a, List.append_assoc]

theorem mapM {noted : α → StateT (List Label) m β} {plain : α → m β} {labelsOf : α → List Label}
    {xs : List α} (h : ∀ x ∈ xs, Notes (noted x) (plain x) (labelsOf x)) :
    Notes (xs.mapM noted) (xs.mapM plain) (xs.flatMap labelsOf) := by
  induction xs with
  | nil => exact pure []
  | cons x xs ih =>
    rw [List.mapM_cons, List.mapM_cons, List.flatMap_cons]
    refine (h x List.mem_cons_self).bind fun y => ?_
    rw [← List.append_nil (xs.flatMap labelsOf)]
    exact (ih fun y member => h y (List.mem_cons_of_mem x member)).bind fun ys => pure (y :: ys)

end Notes

namespace Tree

variable [LawfulMonad m]

theorem notes_noting (f : Tree → m Tree) (n : Tree) : Notes (noting f n) (f n) [n.label] := by
  intro seen
  simp [noting]

/-- **A transformation** applies its function once for every node of the tree, to the parts before
the node, and to a node of the same label. -/
theorem notes_transformM (f : Tree → m Tree) (t : Tree) :
    Notes (transformM (noting f) t) (transformM f t) (t.upward.map label) := by
  induction t using induct with
  | step t ih =>
    rw [transformM_eq_node, transformM_eq_node, upward_eq, List.map_append, List.map_flatMap]
    refine (Notes.mapM ih).bind fun parts => ?_
    -- Whatever the effects make of the parts, the label is that of the node.
    have noted := notes_noting f (t.label.node parts)
    rwa [Label.label_node] at noted

end Tree

end

/-! ## Occurrences -/

namespace Tree

/-- A node occurs in a tree: it is the tree, or it occurs at a place in it. -/
inductive Occurs (n : Tree) : Tree → Prop where
  | here : Occurs n n
  | call {name : String} {args : List Tree} {c : Tree} (part : c ∈ args) (inside : Occurs n c) :
    Occurs n (.call name args)
  | remoteCall {unit name : String} {args : List Tree} {c : Tree} (part : c ∈ args)
    (inside : Occurs n c) : Occurs n (.remoteCall unit name args)
  | superCall {args : List Tree} {c : Tree} (part : c ∈ args) (inside : Occurs n c) :
    Occurs n (.superCall args)
  | baseCall {name : String} {args : List Tree} {c : Tree} (part : c ∈ args)
    (inside : Occurs n c) : Occurs n (.baseCall name args)
  | primitive {symbol : String} {args : List Tree} {c : Tree} (part : c ∈ args)
    (inside : Occurs n c) : Occurs n (.primitive symbol args)
  | subject {subject : Tree} {field : String} (inside : Occurs n subject) :
    Occurs n (.fieldAccess subject field)
  | tuple {items : List Tree} {c : Tree} (part : c ∈ items) (inside : Occurs n c) :
    Occurs n (.tuple items)
  | list {items : List Tree} {c : Tree} (part : c ∈ items) (inside : Occurs n c) :
    Occurs n (.list items)
  | condition {condition thenBranch elseBranch : Tree} (inside : Occurs n condition) :
    Occurs n (.cond condition thenBranch elseBranch)
  | thenBranch {condition thenBranch elseBranch : Tree} (inside : Occurs n thenBranch) :
    Occurs n (.cond condition thenBranch elseBranch)
  | elseBranch {condition thenBranch elseBranch : Tree} (inside : Occurs n elseBranch) :
    Occurs n (.cond condition thenBranch elseBranch)
  | tuplePattern {items : List Tree} {c : Tree} (part : c ∈ items) (inside : Occurs n c) :
    Occurs n (.tuplePattern items)
  | listPattern {items : List Tree} {c : Tree} (part : c ∈ items) (inside : Occurs n c) :
    Occurs n (.listPattern items)
  | aliased {pattern : Tree} {name : String} (inside : Occurs n pattern) :
    Occurs n (.alias pattern name)
  | pattern {pattern value : Tree} (inside : Occurs n pattern) : Occurs n (.optional pattern value)
  | fallback {pattern value : Tree} (inside : Occurs n value) : Occurs n (.optional pattern value)

/-- The places at which a node occurs are the tree itself and those in its direct parts. -/
theorem occurs_iff {n t : Tree} : n.Occurs t ↔ n = t ∨ ∃ c ∈ t.children, n.Occurs c := by
  constructor
  · intro h
    cases h with
    | here => exact .inl rfl
    | call part inside | remoteCall part inside | superCall part inside | baseCall part inside
    | primitive part inside | tuple part inside | list part inside | tuplePattern part inside
    | listPattern part inside => exact .inr ⟨_, part, inside⟩
    | subject inside | condition inside | thenBranch inside | elseBranch inside | aliased inside
    | pattern inside | fallback inside => exact .inr ⟨_, by simp [children], inside⟩
  · rintro (rfl | ⟨c, part, inside⟩)
    · exact .here
    · cases t with
      | call => exact .call part inside
      | remoteCall => exact .remoteCall part inside
      | superCall => exact .superCall part inside
      | baseCall => exact .baseCall part inside
      | primitive => exact .primitive part inside
      | tuple => exact .tuple part inside
      | list => exact .list part inside
      | tuplePattern => exact .tuplePattern part inside
      | listPattern => exact .listPattern part inside
      | fieldAccess =>
        obtain rfl := List.mem_singleton.1 part
        exact .subject inside
      | «alias» =>
        obtain rfl := List.mem_singleton.1 part
        exact .aliased inside
      | cond condition thenBranch elseBranch =>
        have parts : c = condition ∨ c = thenBranch ∨ c = elseBranch := by
          simpa [children] using part
        rcases parts with rfl | rfl | rfl
        · exact .condition inside
        · exact .thenBranch inside
        · exact .elseBranch inside
      | optional pattern value =>
        have parts : c = pattern ∨ c = value := by simpa [children] using part
        rcases parts with rfl | rfl
        · exact .pattern inside
        · exact .fallback inside
      | literal | var | currentUnit | binding | wildcard | constant => cases part

/-- **The walk of a tree** lists the nodes that occur in it. -/
theorem mem_walk_iff_occurs {n t : Tree} : n ∈ t.walk ↔ n.Occurs t := by
  induction t using induct with
  | step t ih =>
    rw [walk_eq, List.mem_cons, List.mem_flatMap, occurs_iff]
    exact or_congr_right (exists_congr fun c => and_congr_right fun part => ih c part)

/-! ## Looking for calls -/

/-- A bare call of one of the keys occurs in a tree. -/
def HasCall (keys : KeySet) (t : Tree) : Prop :=
  ∃ name args, (call name args).Occurs t ∧ keys.contains (Key.ofCount name args.length) = true

theorem calls_iff_hasCall {keys : KeySet} {t : Tree} : t.calls keys = true ↔ t.HasCall keys := by
  rw [calls_iff, HasCall]
  simp only [mem_walk_iff_occurs]

/-- **A routine** is found to call one of the keys exactly if such a call occurs in its body, in a
guard, or in the value of an optional part that occurs in a parameter. -/
theorem routineCalls_iff {keys : KeySet} {params guards : List Tree} {body : Tree} :
    routineCalls keys params guards body = true ↔
      body.HasCall keys ∨ (∃ guard ∈ guards, guard.HasCall keys) ∨
        ∃ param ∈ params, ∃ pattern value,
          (optional pattern value).Occurs param ∧ value.HasCall keys := by
  rw [routineCalls, Bool.or_eq_true, Bool.or_eq_true, List.any_eq_true, List.any_eq_true, or_assoc]
  simp only [fallbacksCall_iff, calls_iff_hasCall, mem_walk_iff_occurs]

/-! ## All traversals of a tree -/

/-- **The traversals agree.**  Of every tree:

* The walk is the node followed by the walks of its parts, and the walk with a stack visits the
  nodes in that order, one in each round, and is over then.
* Rebuilding keeps the label, and the parts are the images of the parts; there is no other node like
  that.  With effects the parts are the results for the parts, first to last.
* A transformation applies its function to the node that is rebuilt from the transformed parts.  It
  does so once for each node of the walk, whatever the effects of the function are.
* Looking for calls finds what occurs. -/
theorem traversals_agree {m : Type → Type} [Monad m] [LawfulMonad m] (t : Tree) :
    (t.walk = t :: t.children.flatMap walk ∧
      ∀ rounds, ((Walker.start t).after rounds).map Walker.visited =
        if rounds ≤ t.walk.length then some (t.walk.take rounds) else none) ∧
    ((∀ f s, s = t.mapChildren f ↔ s.label = t.label ∧ s.children = t.children.map f) ∧
      ∀ f : Tree → m Tree, (fun s => (s.label, s.children)) <$> t.mapChildrenM f =
        (fun parts => (t.label, parts)) <$> t.children.mapM f) ∧
    ((∀ f : Tree → m Tree, transformM f t = t.mapChildrenM (transformM f) >>= f ∧
        (transformM (noting f) t).run [] =
          (fun s => (s, t.upward.map label)) <$> transformM f t) ∧
      t.upward.Perm t.walk ∧
      ∀ f, transformM (fun n => pure (f n)) t = (pure (t.transform f) : m Tree)) ∧
    (∀ keys, t.calls keys = true ↔ t.HasCall keys) ∧
    ∀ keys params guards, routineCalls keys params guards t = true ↔
      t.HasCall keys ∨ (∃ guard ∈ guards, guard.HasCall keys) ∨
        ∃ param ∈ params, ∃ pattern value,
          (optional pattern value).Occurs param ∧ value.HasCall keys :=
  ⟨⟨walk_eq t, Walker.visited_after_start t⟩,
    ⟨fun f _ => eq_mapChildren_iff f, fun f => view_mapChildrenM f t⟩,
    ⟨fun f => ⟨transformM_eq f t, notes_transformM f t []⟩, upward_perm_walk t,
      fun f => transformM_pure f t⟩,
    fun _ => calls_iff_hasCall, fun _ _ _ => routineCalls_iff⟩

/-- A choice between two equal calls, and a call inside of a tuple. -/
def equalBranches : Tree :=
  .cond (.call "f" [.var "x"]) (.call "f" [.var "x"]) (.tuple [.call "g" []])

/-- Leaves a node as it is and counts it. -/
def counted (n : Tree) : StateM Nat Tree := do
  modify (· + 1)
  return n

/-- Equal parts are visited and counted one by one, and calls are found in the tuple and in a value
below a parameter. -/
theorem traversals_agree_equalBranches :
    LawfulMonad (StateM Nat) ∧
    ((Walker.start equalBranches).after 3).map Walker.visited =
      some [equalBranches, .call "f" [.var "x"], .var "x"] ∧
    ((Walker.start equalBranches).after 8).map Walker.visited = none ∧
    ((transformM (noting counted) equalBranches).run []).run 0 =
      ((equalBranches, [.var "x", .call "f", .var "x", .call "f", .call "g", .tuple, .cond]), 7) ∧
    equalBranches.calls (OrderedSet.ofList [.ofCount "g" 0]) = true ∧
    routineCalls (OrderedSet.ofList [.ofCount "h" 0])
      [.tuplePattern [.optional (.binding "y") (.call "h" [])]] [] equalBranches = true := by
  obtain ⟨⟨-, visited⟩, -, ⟨transforms, -, -⟩, finds, findsInRoutine⟩ :=
    traversals_agree (m := StateM Nat) equalBranches
  have upward : equalBranches.upward.map label =
      [.var "x", .call "f", .var "x", .call "f", .call "g", .tuple, .cond] := by
    simp [equalBranches, upward_eq, children, label]
  refine ⟨inferInstance, visited 3, visited 8, ?_, (finds _).2 ?_, (findsInRoutine _ _ _).2 ?_⟩
  · rw [(transforms counted).2, upward]
    rfl
  · exact ⟨"g", [], .elseBranch (.tuple List.mem_cons_self .here), rfl⟩
  · refine .inr (.inr ⟨_, List.mem_cons_self, _, _, .tuplePattern List.mem_cons_self .here, ?_⟩)
    exact ⟨"h", [], .here, rfl⟩

end Tree

end Heredity
