import StepFlow.Flow.Basic
import StepFlow.Path

/-!
The arena in which the step tree of a flow is built. Nodes are stored in the order in which they are
declared, a step before the steps inside it and these before the next step beside it, and a node is
known by its place in that order. Every node has the places of the node that it is declared in and of
those that are declared right inside it, and the places of the steps are indexed by their names, which
are unique in the whole tree.
-/

namespace StepFlow

/-- A node of the tree: the flow or one of its steps, with the two spellings of the script united,
the flags settled and the sets in increasing order. -/
structure TreeNode where
  name : String
  path : Path
  /-- The node that this one is declared in; the root has none. -/
  parent : Option Nat := none
  vars : Table String := []
  condition : Option String := none
  docker : Option Container := none
  agents : List String := []
  bash : Option String := none
  pwsh : Option String := none
  plugin : Option String := none
  post : Bool := false
  allowFailure : Bool := false
  timeout : Option UInt64 := none
  retry : Option UInt32 := none
  exports : List String := []
  secrets : List String := []
  configs : List String := []
  caches : List FileRule := []
  artifacts : List FileRule := []
  /-- The names of the steps that this one waits for. -/
  dependencies : List String := []
  deriving DecidableEq, Repr

/-- The node of a flow. -/
def TreeNode.ofFlow (f : Flow) (path : Path) : TreeNode :=
  { name := path.name, path, vars := f.vars, condition := f.condition, docker := f.docker,
    agents := f.agents }

/-- The node of a step inside the node `parent`. -/
def TreeNode.ofSpec (s : StepSpec) (path : Path) (parent : Nat) : TreeNode :=
  { name := path.name, path, parent := some parent, vars := s.vars, condition := s.condition,
    docker := s.docker, agents := s.agents, bash := s.effectiveBash, pwsh := s.pwsh,
    plugin := s.plugin, post := s.post.getD false, allowFailure := s.allowFailure.getD false,
    timeout := s.timeout, retry := s.retry, exports := Sorted.ofList s.exports,
    secrets := Sorted.ofList s.secrets, configs := Sorted.ofList s.configs, caches := s.caches,
    artifacts := s.artifacts, dependencies := s.dependencies }

/-- The root stands for the flow itself. -/
def TreeNode.isRoot (n : TreeNode) : Bool := n.parent.isNone

/-- Why a flow has no step tree. -/
inductive TreeError where
  | badPath (error : PathError)
  | duplicateName (name : String) (path : Path)
  | pluginOnStage (path : Path)
  | noBody (path : Path)
  deriving DecidableEq, Repr

/-- The wording of the error. -/
def TreeError.message : TreeError → String
  | .badPath error => "format error: " ++ error.message
  | .duplicateName name path => s!"duplicate step name '{name}' at {path.text}"
  | .pluginOnStage path =>
    s!"format error: {path.text}: plugin is not allowed on a step with nested steps"
  | .noBody path => s!"format error: {path.text}: step must define bash, pwsh, plugin or steps"

/-- A node as it is stored: with its own place and the places of the nodes right inside it. -/
structure ArenaNode extends TreeNode where
  id : Nat
  children : List Nat := []
  deriving DecidableEq, Repr

/-- The nodes of a tree in the order of declaration, and the places of its steps by name. -/
structure Arena where
  nodes : List ArenaNode
  index : Table Nat := []
  deriving DecidableEq, Repr

namespace Arena

/-! ### Looking at an arena -/

/-- The number of nodes, the root included. -/
def size (a : Arena) : Nat := a.nodes.length

/-- The node at a place. -/
def node? (a : Arena) (i : Nat) : Option ArenaNode := a.nodes[i]?

/-- The path of the node at a place. -/
def path (a : Arena) (i : Nat) : Path := ((a.node? i).map (·.path)).getD ⟨[]⟩

/-- The node that a node is declared in. -/
def parent? (a : Arena) (i : Nat) : Option Nat := (a.node? i).bind (·.parent)

/-- The nodes declared right inside a node. -/
def children (a : Arena) (i : Nat) : List Nat := ((a.node? i).map (·.children)).getD []

/-- The place of the step of a name. -/
def idOf? (a : Arena) (name : String) : Option Nat := a.index.get? name

/-- The step of a name. -/
def find? (a : Arena) (name : String) : Option ArenaNode := (a.idOf? name).bind a.node?

/-- The node whose path a text writes. -/
def findPath? (a : Arena) (text : String) : Option ArenaNode :=
  match Path.parse text with
  | .ok path => a.nodes.find? fun n => n.path = path
  | .error _ => none

/-- A node and the nodes it is declared in, from the inside out. -/
def ancestors (a : Arena) (i : Nat) : List Nat :=
  match a.parent? i with
  | none => [i]
  | some p => if p < i then i :: ancestors a p else [i]
termination_by i

/-! ### Building -/

/-- An arena with nothing but the root. -/
def ofRoot (root : TreeNode) : Arena := { nodes := [{ root with id := 0 }] }

/-- Stores a node behind the others, as the last one inside the node `parent` and under its name. -/
def push (a : Arena) (parent : Nat) (node : TreeNode) : Arena :=
  let id := a.size
  let nodes := a.nodes ++ [{ node with id }]
  { nodes := nodes.modify parent fun n => { n with children := n.children ++ [id] }
    index := a.index.insert node.name id }

/-- Stores the node of a step inside the node `parent`, if the step may stand there. -/
def declare (parent : Nat) (name : String) (spec : StepSpec) (stage : Bool) (a : Arena) :
    Except TreeError Arena :=
  match (a.path parent).child name with
  | .error e => .error (.badPath e)
  | .ok path =>
    if (a.idOf? path.name).isSome then .error (.duplicateName path.name path)
    else if stage && spec.plugin.isSome then .error (.pluginOnStage path)
    else if !stage && !spec.hasBody then .error (.noBody path)
    else .ok (a.push parent (.ofSpec spec path parent))

/-- Stores steps inside the node `parent`, each followed by the steps inside it. -/
def addSteps (parent : Nat) : List (String × Step) → Arena → Except TreeError Arena
  | [], a => .ok a
  | (name, ⟨spec, inner⟩) :: rest, a =>
    match a.declare parent name spec (!inner.isEmpty) with
    | .error e => .error e
    | .ok declared =>
      match addSteps a.size inner declared with
      | .error e => .error e
      | .ok added => addSteps parent rest added

/-- The arena of a flow. -/
def build (f : Flow) : Except TreeError Arena :=
  match Path.root f.effectiveName with
  | .error e => .error (.badPath e)
  | .ok path => addSteps 0 f.steps (ofRoot (.ofFlow f path))

end Arena

end StepFlow
