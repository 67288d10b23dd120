import Mathlib.Data.Fintype.Card
import Mathlib.Data.Fintype.EquivFin
import Mathlib.Data.Fintype.Sets
import Mathlib.Data.List.Chain
import Mathlib.Data.List.Perm.Subperm
import Heredity.Definition.Schedule

/-!
# Orders and cycles

The queue and the search are two independent walks through one graph.  What the search reports is a
cycle; what the queue returns is in order; and in a graph without cycles the queue returns
everything.

* `Graph.Leads` — an edge, from what is needed to what needs it.  `Graph.Acyclic` says that no path
  of edges leads back.
* `Graph.isCycle_of_findCycle?` — a cycle that is found is one.
* `Graph.Draining` — what holds while nodes are taken off the queue; `Draining.run` says that it
  holds when nothing is left to take off.
* `Graph.mem_order_iff` — a node is listed exactly if everything is listed that it needs.  In an
  acyclic graph that is every node.
* `Graph.grounded_of_search` — no path goes on forever from what a search without a find has left;
  so a cycle is found if there is one (`Graph.findCycle?_eq_none_iff`).
* `Definitions.schedule_eq_ok` — definitions that need each other in no cycle have a schedule.

**The queue is described by what is done.**  Which nodes are on the queue, and in which order, is
never said: a node is done or on the queue exactly if all that it needs is done.
-/

namespace Heredity

namespace Graph

variable {g : Graph} {edges : List (String × String)}

/-- An edge goes from one node to another. -/
def Leads (edges : List (String × String)) (a b : String) : Prop := (a, b) ∈ edges

/-- No path of edges leads from a node back to it. -/
def Acyclic (edges : List (String × String)) : Prop :=
  ∀ n, ¬ Relation.TransGen (Leads edges) n n

/-- A path of edges from a node back to it, with that node at both ends. -/
def IsCycle (edges : List (String × String)) (path : List String) : Prop :=
  ∃ n between, path = n :: (between ++ [n]) ∧ path.IsChain (Leads edges)

theorem IsCycle.not_acyclic {path : List String} (h : IsCycle edges path) : ¬ Acyclic edges := by
  obtain ⟨n, between, rfl, chain⟩ := h
  intro acyclic
  obtain ⟨first, rest, split⟩ : ∃ first rest, between ++ [n] = first :: rest :=
    List.exists_cons_of_ne_nil (by simp)
  rw [split, List.isChain_cons_cons] at chain
  have last : (first :: rest).getLast (List.cons_ne_nil _ _) = n := by
    simp only [← split, List.getLast_append_singleton]
  exact acyclic n (.head' chain.1
    (List.relationReflTransGen_of_exists_isChain_cons rest chain.2 last))

/-! ## The search -/

/-- A fold that fails has failed at one of the elements. -/
theorem exists_of_foldlM_eq_error {α β ε : Type} {f : β → α → Except ε β} {xs : List α} {b : β}
    {e : ε} (h : xs.foldlM f b = .error e) : ∃ x ∈ xs, ∃ b', f b' x = .error e := by
  induction xs generalizing b with
  | nil => cases h
  | cons x xs ih =>
    rw [List.foldlM_cons] at h
    cases first : f b x with
    | error e' =>
      rw [first] at h
      cases h
      exact ⟨x, List.mem_cons_self, b, first⟩
    | ok b' =>
      rw [first] at h
      obtain ⟨x', member, failed⟩ := ih h
      exact ⟨x', List.mem_cons_of_mem x member, failed⟩

/-- A fold that succeeds has succeeded at every element, and keeps what every element keeps. -/
theorem forall_of_foldlM_eq_ok {α β ε : Type} {f : β → α → Except ε β} {I : β → Prop}
    {Q : α → Prop} {xs : List α} {b b' : β} (h : xs.foldlM f b = .ok b') (holds : I b)
    (step : ∀ x ∈ xs, ∀ b b', I b → f b x = .ok b' → Q x ∧ I b') :
    (∀ x ∈ xs, Q x) ∧ I b' := by
  induction xs generalizing b with
  | nil =>
    cases h
    exact ⟨fun _ member => (nomatch member), holds⟩
  | cons x xs ih =>
    rw [List.foldlM_cons] at h
    cases first : f b x with
    | error e =>
      rw [first] at h
      cases h
    | ok b₁ =>
      rw [first] at h
      obtain ⟨isFirst, holds₁⟩ := step x List.mem_cons_self b b₁ holds first
      obtain ⟨rest, last⟩ := ih h holds₁ fun y member => step y (List.mem_cons_of_mem x member)
      exact ⟨List.forall_mem_cons.2 ⟨isFirst, rest⟩, last⟩

theorem mem_successors {node n : String} : n ∈ successors edges node ↔ Leads edges node n := by
  simp [successors, Leads]

theorem dropWhile_eq_cons {path : List String} {node : String} (h : node ∈ path) :
    ∃ rest, path.dropWhile (· != node) = node :: rest := by
  induction path with
  | nil => cases h
  | cons first path ih =>
    rw [List.dropWhile_cons]
    by_cases same : first = node
    · exact ⟨path, by simp [same]⟩
    · rw [if_pos (by simpa using same)]
      exact ih ((List.mem_cons.1 h).resolve_left (Ne.symm same))

/-- **The search** goes along edges, and what it reports is the part of its path from the node that
it has come back to. -/
theorem isCycle_of_search {fuel : Nat} {path seen : List String} {node : String}
    {cycle : List String} (h : search edges fuel path seen node = .error cycle)
    (chain : (path ++ [node]).IsChain (Leads edges)) : IsCycle edges cycle := by
  induction fuel generalizing path seen node with
  | zero => cases h
  | succ fuel ih =>
    rw [search] at h
    split at h
    · next inside =>
      cases h
      obtain ⟨rest, split⟩ := dropWhile_eq_cons inside
      obtain ⟨before, whole⟩ := List.dropWhile_suffix (l := path) (· != node)
      refine ⟨node, rest, by rw [split]; rfl, ?_⟩
      rw [← whole, List.append_assoc] at chain
      exact chain.suffix (List.suffix_append _ _)
    · split at h
      · cases h
      · obtain ⟨n, next', seen', failed⟩ := exists_of_foldlM_eq_error h
        refine ih failed (chain.append (.singleton n) fun a isLast b isFirst => ?_)
        rw [List.getLast?_concat, Option.mem_some_iff] at isLast
        rw [List.head?_singleton, Option.mem_some_iff] at isFirst
        subst isLast isFirst
        exact mem_successors.1 next'

/-- **A cycle that is found** is one. -/
theorem isCycle_of_findCycle? {cycle : List String} (h : g.findCycle? = some cycle) :
    IsCycle g.edges cycle := by
  unfold findCycle? at h
  split at h
  · cases h
  · next failed =>
    cases h
    obtain ⟨n, -, seen, failed⟩ := exists_of_foldlM_eq_error failed
    exact isCycle_of_search failed (.singleton n)

/-! ## The queue -/

/-- The edges from nodes that are not done. -/
def left (edges : List (String × String)) (done : List String) : List (String × String) :=
  edges.filter fun e => decide (e.1 ∉ done)

/-- Every node of a list follows what it needs. -/
def Follows (edges : List (String × String)) (names : List String) : Prop :=
  ∀ before n after, names = before ++ n :: after → ∀ t, Leads edges t n → t ∈ before

theorem Follows.concat {names : List String} {n : String} (h : Follows edges names)
    (ready : ∀ t, Leads edges t n → t ∈ names) : Follows edges (names ++ [n]) := by
  intro before m after split t leads
  rcases List.eq_nil_or_concat after with rfl | ⟨after, last, rfl⟩
  · obtain ⟨rfl, same⟩ := List.append_inj' split rfl
    cases same
    exact ready t leads
  · rw [List.concat_eq_append, ← List.cons_append, ← List.append_assoc] at split
    obtain ⟨rfl, -⟩ := List.append_inj' split rfl
    exact h before m after rfl t leads

theorem isWaiting_left {done : List String} {n : String} :
    isWaiting (left edges done) n = false ↔ ∀ t, Leads edges t n → t ∈ done := by
  rw [Bool.eq_false_iff, isWaiting, ne_eq, List.any_eq_true]
  constructor
  · intro free t leads
    by_contra open'
    exact free ⟨(t, n), List.mem_filter.2 ⟨leads, by simpa using open'⟩, by simp⟩
  · rintro ready ⟨⟨t, m⟩, member, same⟩
    obtain rfl := beq_iff_eq.1 same
    obtain ⟨leads, open'⟩ := List.mem_filter.1 member
    exact (by simpa using open' : t ∉ done) (ready t leads)

theorem left_concat (done : List String) (node : String) :
    (left edges done).filter (fun e => e.1 != node) = left edges (done ++ [node]) := by
  rw [left, left, List.filter_filter]
  refine List.filter_congr fun e _ => ?_
  rw [Bool.eq_iff_iff]
  simp [and_comm]

theorem nodup_eraseDups (names : List String) : names.eraseDups.Nodup := by
  induction length : names.length using Nat.strong_induction_on generalizing names with
  | _ n ih =>
    cases names with
    | nil => simp
    | cons name names =>
      rw [List.eraseDups_cons, List.nodup_cons, List.mem_eraseDups]
      refine ⟨by simp, ih _ ?_ _ rfl⟩
      rw [← length, List.length_cons]
      exact Nat.lt_succ_of_le (List.length_filter_le _ _)

theorem nodup_released (node : String) (rest : List (String × String)) :
    (released node edges rest).Nodup :=
  ((List.nodup_reverse.2 (nodup_eraseDups _)).filter _)

theorem mem_released {node n : String} {rest : List (String × String)} :
    n ∈ released node edges rest ↔ Leads edges node n ∧ isWaiting rest n = false := by
  rw [released, List.mem_filter, keepLast, List.mem_reverse, List.mem_eraseDups, List.mem_reverse,
    mem_successors, Bool.not_eq_true']

/-- Both ends of every edge are nodes. -/
def Closed (g : Graph) : Prop :=
  ∀ a b, Leads g.edges a b → g.nodes.contains a = true ∧ g.nodes.contains b = true

/-- **What holds while nodes are taken off the queue:** a node is done or on the queue exactly if
all that it needs is done. -/
structure Draining (g : Graph) (done queue : List String) : Prop where
  /-- No node comes twice. -/
  nodup : (done ++ queue).Nodup
  /-- What is done or on the queue needs only what is done, and nothing else does. -/
  ready : ∀ n, n ∈ done ++ queue ↔
    g.nodes.contains n = true ∧ ∀ t, Leads g.edges t n → t ∈ done
  /-- What is done follows what it needs. -/
  follows : Follows g.edges done

variable {done queue : List String} {node : String}

/-- Taking a node off the queue. -/
theorem Draining.step (h : Draining g done (node :: queue)) (closed : g.Closed) :
    Draining g (done ++ [node])
      (queue ++ released node (left g.edges done) (left g.edges (done ++ [node]))) := by
  have apart : node ∉ done := by
    intro isDone
    exact (List.nodup_append.1 h.nodup).2.2 node isDone node List.mem_cons_self rfl
  have mem : ∀ n, n ∈ released node (left g.edges done) (left g.edges (done ++ [node])) ↔
      Leads g.edges node n ∧ ∀ t, Leads g.edges t n → t ∈ done ++ [node] := by
    intro n
    rw [mem_released, isWaiting_left, Leads, left, List.mem_filter]
    simp [apart, Leads]
  have same : ∀ new, (done ++ [node]) ++ (queue ++ new) = (done ++ node :: queue) ++ new := by
    simp
  constructor
  · rw [same]
    refine List.nodup_append.2 ⟨h.nodup, nodup_released _ _, ?_⟩
    -- What is released waited for the node, which was not done.
    rintro n old _ new rfl
    exact apart (((h.ready n).1 old).2 node ((mem n).1 new).1)
  · intro n
    rw [same, List.mem_append, h.ready, mem]
    constructor
    · rintro (⟨isNode, ready⟩ | ⟨leads, ready⟩)
      · exact ⟨isNode, fun t leads => List.mem_append_left _ (ready t leads)⟩
      · exact ⟨(closed _ _ leads).2, ready⟩
    · rintro ⟨isNode, ready⟩
      by_cases leads : Leads g.edges node n
      · exact .inr ⟨leads, ready⟩
      · refine .inl ⟨isNode, fun t leads' => ?_⟩
        rcases List.mem_append.1 (ready t leads') with isDone | isNew
        · exact isDone
        · cases List.mem_singleton.1 isNew
          exact absurd leads' leads
  · exact h.follows.concat ((h.ready node).1 (by simp)).2

/-- **All nodes are taken off,** one after the other, until none is left on the queue. -/
theorem Draining.run (closed : g.Closed) {fuel : Nat} (h : Draining g done queue)
    (enough : g.nodes.size ≤ done.length + fuel) :
    Draining g (done ++ drain fuel (left g.edges done) queue) [] := by
  induction fuel generalizing done queue with
  | zero =>
    -- No more nodes can be done than there are, so nothing is on the queue.
    have inside : done ++ queue ⊆ g.nodes.toList :=
      fun n member => OrderedSet.mem_toList.2 ((h.ready n).1 member).1
    have bound := (h.nodup.subperm inside).length_le
    rw [List.length_append, OrderedSet.toList, Table.keys, List.length_map] at bound
    obtain rfl : queue = [] := List.eq_nil_of_length_eq_zero (by rw [Table.size] at enough; omega)
    rwa [drain, List.append_nil]
  | succ fuel ih =>
    cases queue with
    | nil => rwa [drain, List.append_nil]
    | cons node queue =>
      have rest := ih (h.step closed) (by simpa [Nat.add_assoc, Nat.add_comm 1] using enough)
      rw [List.append_assoc, List.singleton_append] at rest
      rwa [drain, left_concat]

theorem draining_sources (g : Graph) : Draining g [] g.sources where
  nodup := g.nodes.nodup_toList.filter _
  ready n := by
    have free : isWaiting (left g.edges []) n = false ↔ ∀ t, Leads g.edges t n → t ∈ [] :=
      isWaiting_left
    rw [left, List.filter_eq_self.2 fun _ _ => by simp] at free
    rw [List.nil_append, sources, List.mem_filter, OrderedSet.mem_toList, Bool.not_eq_true', free]
  follows := fun before n after split => by simp at split

theorem draining_order (closed : g.Closed) : Draining g g.order [] := by
  have enough : g.nodes.size ≤ ([] : List String).length + g.nodes.size := by simp
  have rest := (draining_sources g).run closed enough
  rwa [left, List.filter_eq_self.2 fun _ _ => by simp] at rest

/-- No node is listed twice. -/
theorem nodup_order (closed : g.Closed) : g.order.Nodup := by
  have nodup := (draining_order closed).nodup
  rwa [List.append_nil] at nodup

/-- Every node follows what it needs. -/
theorem follows_order (closed : g.Closed) : Follows g.edges g.order :=
  (draining_order closed).follows

/-- A node is listed exactly if everything is listed that it needs. -/
theorem mem_order_iff (closed : g.Closed) {n : String} :
    n ∈ g.order ↔ g.nodes.contains n = true ∧ ∀ t, Leads g.edges t n → t ∈ g.order := by
  have ready := (draining_order closed).ready n
  rwa [List.append_nil] at ready

/-- Paths in a finite graph without cycles cannot be followed back forever. -/
theorem Acyclic.wellFounded (h : Acyclic edges) : WellFounded (Leads edges) := by
  let Source := { n // n ∈ edges.map Prod.fst }
  let Before (a b : Source) : Prop := Relation.TransGen (Leads edges) a b
  have : IsTrans Source Before := ⟨fun _ _ _ => .trans⟩
  have : Std.Irrefl Before := ⟨fun a => h a⟩
  have : Finite Source := inferInstanceAs (Finite { n // n ∈ edges.map Prod.fst })
  have founded := Finite.wellFounded_of_trans_of_irrefl Before
  have ofSource : ∀ a : Source, Acc (Leads edges) a := by
    intro a
    induction a using founded.induction with
    | _ a ih =>
      refine ⟨_, fun b leads => ?_⟩
      exact ih ⟨b, List.mem_map_of_mem (f := Prod.fst) leads⟩ (.single leads)
  exact ⟨fun n => ⟨n, fun a leads => ofSource ⟨a, List.mem_map_of_mem (f := Prod.fst) leads⟩⟩⟩

/-- **In an acyclic graph every node is listed.** -/
theorem mem_order_of_acyclic (closed : g.Closed) (acyclic : Acyclic g.edges) {n : String} :
    n ∈ g.order ↔ g.nodes.contains n = true := by
  refine ⟨fun listed => ((mem_order_iff closed).1 listed).1, fun isNode => ?_⟩
  induction n using acyclic.wellFounded.induction with
  | _ n ih =>
    exact (mem_order_iff closed).2 ⟨isNode, fun t leads => ih t leads (closed t n leads).1⟩

/-! ## Searching in vain -/

/-- A node from which no path of edges goes on forever. -/
def Grounded (edges : List (String × String)) (n : String) : Prop :=
  Acc (Function.swap (Leads edges)) n

/-- A grounded node lies on no cycle. -/
theorem Grounded.not_transGen {n : String} (h : Grounded edges n) :
    ¬ Relation.TransGen (Leads edges) n n := by
  intro cycle
  have around : Relation.TransGen (Function.swap (Leads edges)) n n :=
    Relation.transGen_swap.2 cycle
  have grounded := Acc.transGen h
  clear h cycle
  induction grounded with
  | intro n _ ih => exact ih n around around

/-- Nodes that have been seen and left again are grounded. -/
def Settled (edges : List (String × String)) (path seen : List String) : Prop :=
  ∀ n ∈ seen, n ∉ path → Grounded edges n

/-- **A search without a find.**  If the search from a node finds no cycle, the node is grounded, and
so is everything else that the search has left again.  The path has no repetition, so the depth of
the search is at most the number of nodes. -/
theorem grounded_of_search (closed : g.Closed) {fuel : Nat} {path seen seen' : List String}
    {node : String} (h : search g.edges fuel path seen node = .ok seen')
    (isNode : g.nodes.contains node = true) (nodup : path.Nodup)
    (inside : ∀ n ∈ path, g.nodes.contains n = true)
    (enough : g.nodes.size < path.length + fuel) (settled : Settled g.edges path seen) :
    Grounded g.edges node ∧ Settled g.edges path seen' := by
  induction fuel generalizing path seen seen' node with
  | zero =>
    have bound := (nodup.subperm fun n member => OrderedSet.mem_toList.2 (inside n member)).length_le
    rw [OrderedSet.toList, Table.keys, List.length_map] at bound
    exact absurd enough (Nat.not_lt.2 bound)
  | succ fuel ih =>
    rw [search] at h
    split at h
    · cases h
    · next outside =>
      split at h
      · next isSeen =>
        cases h
        exact ⟨settled node isSeen outside, settled⟩
      · have entered : Settled g.edges (path ++ [node]) (node :: seen) := by
          intro n member left
          rw [List.mem_append, List.mem_singleton, not_or] at left
          exact settled n ((List.mem_cons.1 member).resolve_left left.2) left.1
        obtain ⟨each, left⟩ := forall_of_foldlM_eq_ok h entered fun n next _ _ settled' done =>
          ih done (closed _ _ (mem_successors.1 next)).2
            (List.nodup_append.2 ⟨nodup, List.nodup_singleton node, fun a isIn b isLast => by
              rw [List.mem_singleton.1 isLast]
              rintro rfl
              exact outside isIn⟩)
            (fun a isIn => (List.mem_append.1 isIn).elim (inside a) fun isLast => by
              rwa [List.mem_singleton.1 isLast])
            (by rw [List.length_append, List.length_singleton]; omega) settled'
        have grounded : Grounded g.edges node :=
          ⟨_, fun n leads => each n (mem_successors.2 leads)⟩
        refine ⟨grounded, fun n member notOn => ?_⟩
        by_cases same : n = node
        · rwa [same]
        · refine left n member ?_
          rw [List.mem_append, List.mem_singleton, not_or]
          exact ⟨notOn, same⟩

/-- **A cycle is found if there is one.** -/
theorem findCycle?_eq_none_iff (closed : g.Closed) : g.findCycle? = none ↔ Acyclic g.edges := by
  constructor
  · intro none n cycle
    have isNode : g.nodes.contains n = true := by
      obtain ⟨m, leads, -⟩ := Relation.TransGen.head'_iff.1 cycle
      exact (closed n m leads).1
    unfold findCycle? at none
    split at none
    · next searched =>
      have settled : Settled g.edges [] [] := fun _ member => nomatch member
      obtain ⟨each, -⟩ := forall_of_foldlM_eq_ok searched settled
        fun m listed _ _ settled done =>
          grounded_of_search closed done (OrderedSet.mem_toList.1 listed) List.nodup_nil
            (fun _ member => nomatch member) (by simp) settled
      exact (each n (OrderedSet.mem_toList.2 isNode)).not_transGen cycle
    · cases none
  · intro acyclic
    cases found : g.findCycle? with
    | none => rfl
    | some cycle => exact absurd acyclic (isCycle_of_findCycle? found).not_acyclic

end Graph

/-! ## Schedules -/

namespace Definitions

variable {ds : Definitions} {store : Store} {g g' : Graph}

/-- One defined unit needs another: it names it as its base, as the source of an import, or by a
qualified call in a body or a guard. -/
def Needs (ds : Definitions) (n t : String) : Prop :=
  ∃ d, ds.get? n = some d ∧ t ∈ ds.needs n d

theorem mem_needs {n t : String} {d : Definition} :
    t ∈ ds.needs n d ↔ t ∈ d.requirements ∧ ds.contains t = true ∧ t ≠ n := by
  rw [needs, List.mem_filter, Bool.and_eq_true, bne_iff_ne]

/-- A graph has the nodes and the edges of certain definitions. -/
structure Shows (ds : Definitions) (names : List String) (g : Graph) : Prop where
  /-- An edge leads to a defined unit from what it needs. -/
  leads : ∀ t n, Graph.Leads g.edges t n ↔ n ∈ names ∧ ds.Needs n t
  /-- The nodes are the units that are defined, and all that they need. -/
  nodes : ∀ n, g.nodes.contains n = true ↔
    n ∈ names ∧ ds.contains n = true ∨ ∃ m ∈ names, ds.Needs m n

theorem shows_empty (ds : Definitions) : ds.Shows [] {} where
  leads t n := by simp [Graph.Leads]
  nodes n := by simp

theorem needs_iff {n t : String} {d : Definition} (found : ds.get? n = some d) :
    ds.Needs n t ↔ t ∈ ds.needs n d := by
  constructor
  · rintro ⟨d', found', needed⟩
    cases found.symm.trans found'
    exact needed
  · exact fun needed => ⟨d, found, needed⟩

theorem contains_of_needs {n t : String} (h : ds.Needs n t) : ds.contains t = true := by
  obtain ⟨d, -, needed⟩ := h
  exact (mem_needs.1 needed).2.1

/-- A definition is added with an edge from everything that it needs. -/
theorem Shows.add {names : List String} {n : String} {d : Definition} (h : ds.Shows names g)
    (found : ds.get? n = some d) : ds.Shows (names ++ [n]) (g.add n (ds.needs n d)) where
  leads t m := by
    have new : (t, m) ∈ (ds.needs n d).map (fun need => (need, n)) ↔ m = n ∧ ds.Needs m t := by
      rw [List.mem_map]
      constructor
      · rintro ⟨need, needed, same⟩
        cases same
        exact ⟨rfl, (needs_iff found).2 needed⟩
      · rintro ⟨rfl, needed⟩
        exact ⟨t, (needs_iff found).1 needed, rfl⟩
    have old := h.leads t m
    rw [Graph.Leads] at old
    rw [Graph.Leads, Graph.add, List.mem_append, new, old, List.mem_append, List.mem_singleton,
      ← or_and_right]
  nodes m := by
    have isDefined : ds.contains n = true := Table.contains_iff_exists_get?.2 ⟨d, found⟩
    have new : (ds.needs n d).any (· == m) = true ↔ ds.Needs n m := by
      rw [needs_iff found, List.any_eq_true]
      simp
    rw [Graph.add, OrderedSet.contains_addAll, OrderedSet.contains_add, Bool.or_eq_true,
      Bool.or_eq_true, new, h.nodes, beq_iff_eq]
    constructor
    · rintro (needed | rfl | ⟨listed, isDefined'⟩ | ⟨k, listed, needed⟩)
      · exact .inr ⟨n, by simp, needed⟩
      · exact .inl ⟨by simp, isDefined⟩
      · exact .inl ⟨List.mem_append_left _ listed, isDefined'⟩
      · exact .inr ⟨k, List.mem_append_left _ listed, needed⟩
    · rintro (⟨listed, isDefined'⟩ | ⟨k, listed, needed⟩)
      · rcases List.mem_append.1 listed with listed | same
        · exact .inr (.inr (.inl ⟨listed, isDefined'⟩))
        · exact .inr (.inl (List.mem_singleton.1 same).symm)
      · rcases List.mem_append.1 listed with listed | same
        · exact .inr (.inr (.inr ⟨k, listed, needed⟩))
        · cases List.mem_singleton.1 same
          exact .inl needed

/-- A name without a definition is passed over. -/
theorem Shows.skip {names : List String} {n : String} (h : ds.Shows names g)
    (missing : ds.get? n = none) : ds.Shows (names ++ [n]) g where
  leads t m := by
    have never : m ∈ [n] → ¬ ds.Needs m t := by
      rintro listed ⟨d, found, -⟩
      cases List.mem_singleton.1 listed
      cases missing.symm.trans found
    rw [h.leads, List.mem_append, or_and_right]
    exact (or_iff_left fun new => never new.1 new.2).symm
  nodes m := by
    have absent : ds.contains n = false := (Table.get?_eq_none_iff ds n).1 missing
    rw [h.nodes]
    constructor
    · rintro (⟨listed, isDefined⟩ | ⟨k, listed, needed⟩)
      · exact .inl ⟨List.mem_append_left _ listed, isDefined⟩
      · exact .inr ⟨k, List.mem_append_left _ listed, needed⟩
    · rintro (⟨listed, isDefined⟩ | ⟨k, listed, needed⟩)
      · refine .inl ⟨(List.mem_append.1 listed).resolve_right fun same => ?_, isDefined⟩
        cases List.mem_singleton.1 same
        exact Bool.false_ne_true (absent.symm.trans isDefined)
      · refine .inr ⟨k, (List.mem_append.1 listed).resolve_right fun same => ?_, needed⟩
        cases List.mem_singleton.1 same
        obtain ⟨d, found, -⟩ := needed
        cases missing.symm.trans found

/-- The base of every definition is defined or published. -/
def BasesKnown (ds : Definitions) (store : Store) : Prop :=
  ∀ n d, ds.get? n = some d → ∀ base, d.base = some base →
    ds.contains base = true ∨ (store.get? base).isSome = true

theorem checkBase_eq_ok (known : ds.BasesKnown store) {n : String} {d : Definition}
    (found : ds.get? n = some d) : checkBase ds store n d = .ok () := by
  unfold checkBase
  split
  · rfl
  · next base isBase =>
    rw [if_pos]
    rw [Bool.or_eq_true]
    exact known n d found base isBase

theorem addAll_eq_ok (known : ds.BasesKnown store) {done : List String} (names : List String)
    (h : ds.Shows done g) :
    ∃ g', addAll ds store g names = .ok g' ∧ ds.Shows (done ++ names) g' := by
  induction names generalizing g done with
  | nil => exact ⟨g, rfl, by rwa [List.append_nil]⟩
  | cons name names ih =>
    rw [addAll, List.append_cons]
    split
    · next missing => exact ih (h.skip missing)
    · next d found =>
      rw [checkBase_eq_ok known found]
      exact ih (h.add found)

theorem mem_sortedNames {n : String} : n ∈ ds.sortedNames ↔ ds.contains n = true := by
  rw [sortedNames, List.mem_mergeSort, Table.contains_iff_exists_key]
  simp

/-- The graph of definitions has their names as its nodes, and an edge from everything to what needs
it. -/
theorem graph_eq_ok (known : ds.BasesKnown store) :
    ∃ g, ds.graph store = .ok g ∧ (∀ t n, Graph.Leads g.edges t n ↔ ds.Needs n t) ∧
      ∀ n, g.nodes.contains n = true ↔ ds.contains n = true := by
  obtain ⟨g, built, shows'⟩ := addAll_eq_ok known ds.sortedNames (shows_empty ds)
  refine ⟨g, built, fun t n => ?_, fun n => ?_⟩
  · rw [shows'.leads, List.nil_append, and_iff_right_iff_imp, mem_sortedNames]
    rintro ⟨d, found, -⟩
    exact Table.contains_iff_exists_get?.2 ⟨d, found⟩
  · rw [shows'.nodes, List.nil_append, mem_sortedNames, and_self, or_iff_left_iff_imp]
    rintro ⟨m, -, needed⟩
    exact contains_of_needs needed

/-- **Schedules.**  Definitions with known bases that need each other in no cycle have a schedule.
It lists every defined unit once, after everything that the unit needs. -/
theorem schedule_eq_ok (known : ds.BasesKnown store)
    (acyclic : ∀ n, ¬ Relation.TransGen ds.Needs n n) :
    ∃ names, ds.schedule store = .ok names ∧ names.Nodup ∧
      (∀ n, n ∈ names ↔ ds.contains n = true) ∧
      ∀ before n after, names = before ++ n :: after → ∀ t, ds.Needs n t → t ∈ before := by
  obtain ⟨g, built, leads, nodes⟩ := graph_eq_ok known
  have closed : g.Closed := by
    intro a b edge
    obtain ⟨d, found, needed⟩ := (leads a b).1 edge
    exact ⟨(nodes a).2 (mem_needs.1 needed).2.1,
      (nodes b).2 (Table.contains_iff_exists_get?.2 ⟨d, found⟩)⟩
  have acyclic : Graph.Acyclic g.edges := by
    have same : Graph.Leads g.edges = Function.swap ds.Needs := by
      funext t n
      exact propext (leads t n)
    rw [Graph.Acyclic, same]
    exact fun n cycle => acyclic n (Relation.transGen_swap.1 cycle)
  have none : g.findCycle? = none := (Graph.findCycle?_eq_none_iff closed).2 acyclic
  refine ⟨g.order, ?_, Graph.nodup_order closed, fun n => ?_,
    fun before n after split t needed => ?_⟩
  · rw [schedule, built]
    simp only [bind, Except.bind, none]
    rfl
  · rw [Graph.mem_order_of_acyclic closed acyclic, nodes]
  · exact Graph.follows_order closed before n after split t ((leads t n).2 needed)

end Definitions

end Heredity
