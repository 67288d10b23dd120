import Heredity.Table

/-!
# Orders of a dependency graph

A graph is a list of nodes in the order in which they were first mentioned, and a list of edges: an
edge goes from what is needed to what needs it, and may be repeated.

* `Graph.add` adds a node with what it needs.
* `Graph.order` takes nodes off a queue, at first those that need nothing, in the order of their
  mention.  A node that is taken off releases what needs it, in the order in which the edges were
  added; whatever needs nothing more then joins the queue.
* `Graph.findCycle?` searches for a cycle, depth first, from every node in turn.
-/

namespace Heredity

/-- A graph of names. -/
structure Graph where
  /-- The nodes, in the order of their first mention. -/
  nodes : OrderedSet String := ∅
  /-- The edges, from what is needed to what needs it. -/
  edges : List (String × String) := []

namespace Graph

/-- Adds a node and what it needs. -/
def add (g : Graph) (node : String) (needs : List String) : Graph :=
  { nodes := (g.nodes.add node).addAll needs
    edges := g.edges ++ needs.map fun n => (n, node) }

/-- What needs a node, in the order in which the edges were added. -/
def successors (edges : List (String × String)) (node : String) : List String :=
  (edges.filter fun e => e.1 == node).map Prod.snd

/-- Whether a node needs something. -/
def isWaiting (edges : List (String × String)) (node : String) : Bool :=
  edges.any fun e => e.2 == node

/-- A list without repetitions, of which the last ones stay. -/
def keepLast (names : List String) : List String := names.reverse.eraseDups.reverse

/-- What is released when a node is taken off, given the edges that are left then. -/
def released (node : String) (edges rest : List (String × String)) : List String :=
  (keepLast (successors edges node)).filter fun n => !isWaiting rest n

/-- Takes nodes off a queue, at most `fuel` of them. -/
def drain : Nat → List (String × String) → List String → List String
  | 0, _, _ => []
  | _ + 1, _, [] => []
  | fuel + 1, edges, node :: queue =>
    -- What needs the node waits only for the others from now on.
    let rest := edges.filter fun e => e.1 != node
    node :: drain fuel rest (queue ++ released node edges rest)

/-- The nodes that need nothing. -/
def sources (g : Graph) : List String := g.nodes.toList.filter fun n => !isWaiting g.edges n

/-- The nodes in an order in which everything follows what it needs, if there is one. -/
def order (g : Graph) : List String := drain g.nodes.size g.edges g.sources

/-- Searches from a node, given the path that leads to it and the nodes that have been seen: either
a cycle is found, or more nodes have been seen. -/
def search (edges : List (String × String)) :
    Nat → List String → List String → String → Except (List String) (List String)
  | 0, _, seen, _ => .ok seen
  | fuel + 1, path, seen, node =>
    if node ∈ path then .error (path.dropWhile (· != node) ++ [node])
    else if node ∈ seen then .ok seen
    else (successors edges node).foldlM (search edges fuel (path ++ [node])) (node :: seen)

/-- A cycle, from a node back to itself, if there is one. -/
def findCycle? (g : Graph) : Option (List String) :=
  match g.nodes.toList.foldlM (search g.edges (g.nodes.size + 1) []) [] with
  | .ok _ => none
  | .error cycle => some cycle

end Graph

end Heredity
