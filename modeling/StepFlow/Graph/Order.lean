import StepFlow.Graph
import StepFlow.Json

/-!
Orders of the nodes of a graph: the order in which the nodes come out when the earliest node whose
parents are all out is taken each time, and the nodes behind a node, nearest first. The first is
also the order in which a graph is shown.
-/

namespace StepFlow.Graph

/-! ### Parents before children -/

/-- One parent of `child` is out: lowers the count of those that are not, and when none is left
makes the child ready. -/
def lower (counts ready : List Nat) (child : Nat) : List Nat × List Nat :=
  let left := counts[child]?.getD 0 - 1
  (counts.set child left, if left = 0 then Sorted.insert child ready else ready)

/-- Takes out at most `n` nodes, each time the earliest that is ready. -/
def takeOut (g : Graph) : (n : Nat) → (counts ready : List Nat) → List Nat
  | 0, _, _ => []
  | _, _, [] => []
  | n + 1, counts, i :: ready =>
    let (counts, ready) :=
      (g.children i).foldl (fun (c, r) child => lower c r child) (counts, ready)
    i :: takeOut g n counts ready

/-- How many parents each node has. -/
def parentCounts (g : Graph) : List Nat := g.nodes.map (·.parents.length)

/-- The nodes without parents, in order of declaration. -/
def sourcesOf (g : Graph) : List Nat := (List.range g.size).filter fun i => (g.parents i).isEmpty

/-- All nodes with every node behind its parents; of the nodes that may come next the one that was
declared first does. -/
def order (g : Graph) : List Nat := takeOut g g.size g.parentCounts g.sourcesOf

/-! ### Behind a node -/

/-- Goes along the edges breadth first: `met` are the nodes met so far, `queue` those to come. -/
def sweep (g : Graph) (met : List Nat) : (queue : List Nat) → List Nat
  | [] => met
  | i :: queue =>
    if _new : i < g.size ∧ i ∉ met then sweep g (met ++ [i]) (queue ++ g.children i)
    else sweep g met queue
termination_by queue => (unvisited g.size met, queue.length)
decreasing_by
  · have h := unvisited_cons_lt _new.1 _new.2
    have : unvisited g.size (met ++ [i]) = unvisited g.size (i :: met) := by
      unfold unvisited
      exact List.countP_congr fun j _ => by simp [or_comm]
    exact Prod.Lex.left _ _ (this ▸ h)
  · exact Prod.Lex.right _ (by simp)

/-- The nodes that can be reached from a node along one or more edges, nearest first. -/
def behind (g : Graph) (i : Nat) : List Nat := g.sweep [] (g.children i)

/-! ### Views -/

/-- A node as it is shown: all other nodes by their names. -/
structure NodeView where
  name : String
  path : String
  parents : List String
  children : List String
  exit : Option String
  deriving DecidableEq, Repr

/-- The view of a node. -/
def nodeView (g : Graph) (i : Nat) : NodeView :=
  { name := g.name i
    path := ((g.tree.node? i).map (·.path.text)).getD ""
    parents := (g.parents i).map g.name
    children := (g.children i).map g.name
    exit := (g.node i).exit.map g.name }

/-- The views of all nodes, parents before children. -/
def view (g : Graph) : List NodeView := g.order.map g.nodeView

/-- A view as JSON; a node without an exit shows none. -/
def NodeView.toJson (v : NodeView) : Json :=
  .obj ([("name", .str v.name), ("path", .str v.path), ("parents", Json.strs v.parents),
    ("children", Json.strs v.children)] ++ (v.exit.map fun e => ("exit", Json.str e)).toList)

end StepFlow.Graph
