import StepFlow.Tree

/-!
The execution graph of a step tree. The steps of one level run one after the other, unless a step
names the steps it waits for. Seen from outside, a stage is left through its exit, the last step of
the chain inside it: who waits for a stage waits for its exit.
-/

namespace StepFlow

/-- The edges at one node, and for a stage its exit. -/
structure GraphNode where
  parents : List Nat := []
  children : List Nat := []
  exit : Option Nat := none
  deriving DecidableEq, Repr

/-- Why a tree has no graph. -/
inductive GraphError where
  | unresolved (step dependency : String)
  | cyclic (names : List String)
  deriving DecidableEq, Repr

/-- The wording of the error. -/
def GraphError.message : GraphError → String
  | .unresolved step dependency => s!"step '{step}' depends on undefined step '{dependency}'"
  | .cyclic names => "cyclic dependency: " ++ Text.join " -> " names

/-- A step tree with the edges between its nodes. -/
structure Graph where
  tree : Tree
  nodes : List GraphNode
  deriving DecidableEq, Repr

namespace Graph

/-! ### Looking at a graph -/

/-- The number of nodes, the root included. -/
def size (g : Graph) : Nat := g.nodes.length

/-- The edges at a node. -/
def node (g : Graph) (i : Nat) : GraphNode := g.nodes[i]?.getD {}

/-- The nodes that a node waits for. -/
def parents (g : Graph) (i : Nat) : List Nat := (g.node i).parents

/-- The nodes that wait for a node. -/
def children (g : Graph) (i : Nat) : List Nat := (g.node i).children

theorem children_of_size_le {g : Graph} {i : Nat} (h : g.size ≤ i) : g.children i = [] := by
  have : g.nodes[i]? = none := List.getElem?_eq_none h
  simp [children, node, this]

/-- The node that stands for a node when others wait for it. -/
def exitOf (g : Graph) (i : Nat) : Nat := (g.node i).exit.getD i

/-- The name of a node. -/
def name (g : Graph) (i : Nat) : String := g.tree.name i

/-- A node may start when all its parents are settled. -/
def isReady (g : Graph) (i : Nat) (settled : List Nat) : Bool :=
  (g.parents i).all fun p => settled.contains p

/-! ### Building -/

/-- The exits of the stages. The nodes are gone through from the last to the first, so that the
exit of a stage inside another one is known when that one needs it. -/
def exits (t : Tree) : List (Nat × Nat) :=
  (List.range t.size).foldr (fun i known =>
    if t.isStage i then
      match (t.children i).getLast? with
      | some last => (i, (known.lookup last).getD last) :: known
      | none => known
    else known) []

/-- A graph without edges. -/
def unconnected (t : Tree) : Graph :=
  let exits := exits t
  ⟨t, (List.range t.size).map fun i => { exit := exits.lookup i }⟩

/-- Adds an edge, unless it is there. -/
def connect (g : Graph) (source target : Nat) : Graph :=
  if target ∈ g.children source then g
  else
    let nodes := g.nodes.modify source fun n => { n with children := n.children ++ [target] }
    let nodes := nodes.modify target fun n => { n with parents := n.parents ++ [source] }
    { g with nodes }

/-- The nodes that a step's dependencies stand for. All of them must be names of steps. -/
def sources (g : Graph) (step : String) : List String → Except GraphError (List Nat)
  | [] => .ok []
  | d :: r =>
    match g.tree.idOf? d with
    | none => .error (.unresolved step d)
    | some i =>
      match sources g step r with
      | .error e => .error e
      | .ok rest => .ok (g.exitOf i :: rest)

/-- Connects a node with what it waits for: its dependencies, or else the node before it. -/
def connectNode (g : Graph) (current i : Nat) : Except GraphError Graph :=
  match g.tree.node? i with
  | none => .ok g
  | some n =>
    if n.dependencies.isEmpty then .ok (g.connect current i)
    else (g.sources n.name n.dependencies).map fun from_ => from_.foldl (fun g s => g.connect s i) g

/-- Connects the nodes right inside `start`, and those inside them up to `levels` levels down, and
returns the exit of the chain with the graph. -/
def connectLevel : (levels : Nat) → (start : Nat) → Graph → Except GraphError (Nat × Graph)
  | 0, start, g => .ok (start, g)
  | levels + 1, start, g =>
    (g.tree.children start).foldlM (fun (current, g) i =>
      match g.connectNode current i with
      | .error e => .error e
      | .ok g => if g.tree.isStage i then connectLevel levels i g else .ok (i, g)) (start, g)

/-! ### Cycles -/

/-- How many nodes were not visited yet. -/
def unvisited (n : Nat) (visited : List Nat) : Nat := (List.range n).countP fun i => i ∉ visited

/-- Visiting a new node leaves fewer to visit. -/
theorem unvisited_cons_lt {n i : Nat} {visited : List Nat} (hi : i < n) (hv : i ∉ visited) :
    unvisited n (i :: visited) < unvisited n visited := by
  unfold unvisited
  induction n with
  | zero => omega
  | succ n ih =>
    simp only [List.range_succ, List.countP_append, List.countP_singleton]
    have mono : ∀ m, (List.range m).countP (fun j => decide (j ∉ i :: visited)) ≤
        (List.range m).countP fun j => decide (j ∉ visited) := fun m =>
      List.countP_mono_left fun j _ hj => by simp_all
    by_cases h : i = n
    · subst h
      have := mono i
      simp [hv] at *
      omega
    · have := ih (by omega)
      have : decide (n ∉ i :: visited) = decide (n ∉ visited) := by
        simp [Ne.symm h]
      rw [this]
      omega

/-- What is not a node leaves as many to visit. -/
theorem unvisited_cons_of_le {n i : Nat} {visited : List Nat} (hi : n ≤ i) :
    unvisited n (i :: visited) = unvisited n visited := by
  unfold unvisited
  refine List.countP_congr fun j hj => ?_
  have : j ≠ i := by
    have := List.mem_range.mp hj
    omega
  simp [this]

/-- A search along the edges: the path walked so far, each node with the children still to be
looked at, innermost first. -/
abbrev Trail := List (Nat × List Nat)

/-- The nodes of a trail, from the outermost in. -/
def Trail.path (trail : Trail) : List Nat := (trail.map (·.1)).reverse

/-- The children that a trail still has to look at, and its length. -/
def Trail.pending (trail : Trail) : Nat :=
  trail.foldr (fun (_, cs) n => cs.length + 1 + n) 0

/-- Searches on along a trail for an edge back into it. Returns the nodes visited in the end, or
the part of the trail that the edge closes. -/
def search (g : Graph) (visited : List Nat) (trail : Trail) : Except (List Nat) (List Nat) :=
  match trail with
  | [] => .ok visited
  | (_, []) :: rest => search g visited rest
  | (i, c :: cs) :: rest =>
    let path := Trail.path trail
    if c ∈ path then .error (path.dropWhile (· ≠ c) ++ [c])
    else if _new : c < g.size ∧ c ∉ visited then
      search g (c :: visited) ((c, g.children c) :: (i, cs) :: rest)
    else search g visited ((i, cs) :: rest)
termination_by (unvisited g.size visited, Trail.pending trail)
decreasing_by
  · simp [Trail.pending]
    right
    omega
  · exact Prod.Lex.left _ _ (unvisited_cons_lt _new.1 _new.2)
  · simp [Trail.pending]
    right
    omega

/-- Searches from every node in turn that was not visited before. -/
def searchAll (g : Graph) : List Nat → List Nat → Except (List Nat) (List Nat)
  | visited, [] => .ok visited
  | visited, i :: rest =>
    if i ∈ visited then searchAll g visited rest
    else
      match g.search (i :: visited) [(i, g.children i)] with
      | .error cycle => .error cycle
      | .ok visited => searchAll g visited rest

/-- A cycle, if there is one: its first node stands at the end again. -/
def cycle? (g : Graph) : Option (List Nat) :=
  match g.searchAll [] (List.range g.size) with
  | .error cycle => some cycle
  | .ok _ => none

/-- The graph of a step tree. -/
def build (t : Tree) : Except GraphError Graph :=
  match connectLevel Path.maxDepth 0 (unconnected t) with
  | .error e => .error e
  | .ok (_, g) =>
    match g.cycle? with
    | some cycle => .error (.cyclic (cycle.map g.name))
    | none => .ok g

end Graph

/-- Why a flow has no graph. -/
inductive CompileError where
  | tree (error : TreeError)
  | graph (error : GraphError)
  deriving DecidableEq, Repr

/-- The wording of the error. -/
def CompileError.message : CompileError → String
  | .tree error => error.message
  | .graph error => error.message

/-- The execution graph of a flow. -/
def Flow.compile (f : Flow) : Except CompileError Graph :=
  match Tree.build f with
  | .error e => .error (.tree e)
  | .ok t => (Graph.build t).mapError .graph

end StepFlow
