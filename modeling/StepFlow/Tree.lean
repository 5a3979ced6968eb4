import StepFlow.Tree.Arena

/-!
The step tree of a flow as all that follows sees it: the nodes of its arena in the order of
declaration, each with its parent. What else the arena keeps is read off them again.
-/

namespace StepFlow

/-- A step tree: its nodes in the order of declaration. -/
structure Tree where
  nodes : List TreeNode
  deriving DecidableEq, Repr

/-- The tree in an arena. -/
def Arena.tree (a : Arena) : Tree := ⟨a.nodes.map (·.toTreeNode)⟩

namespace Tree

/-- The tree of a flow. -/
def build (f : Flow) : Except TreeError Tree := (Arena.build f).map Arena.tree

/-! ### Looking at a tree -/

/-- The number of nodes, the root included. -/
def size (t : Tree) : Nat := t.nodes.length

/-- The node at a place. -/
def node? (t : Tree) (i : Nat) : Option TreeNode := t.nodes[i]?

/-- The name of the node at a place. -/
def name (t : Tree) (i : Nat) : String := ((t.node? i).map (·.name)).getD ""

/-- The node that a node is declared in. -/
def parent? (t : Tree) (i : Nat) : Option Nat := (t.node? i).bind (·.parent)

/-- The nodes declared right inside a node. -/
def children (t : Tree) (i : Nat) : List Nat :=
  (List.range t.size).filter fun c => t.parent? c = some i

/-- The node is a step. -/
def isStep (t : Tree) (i : Nat) : Bool := (t.parent? i).isSome

/-- A step with steps inside it. -/
def isStage (t : Tree) (i : Nat) : Bool := t.isStep i && !(t.children i).isEmpty

/-- A step without steps inside it; these are the ones that agents run. -/
def isLeaf (t : Tree) (i : Nat) : Bool := t.isStep i && (t.children i).isEmpty

/-- The step of a name. -/
def idOf? (t : Tree) (name : String) : Option Nat :=
  t.nodes.findIdx? fun n => !n.isRoot && n.name = name

/-- The node whose path a text writes. -/
def findPath? (t : Tree) (text : String) : Option Nat :=
  match Path.parse text with
  | .ok path => t.nodes.findIdx? fun n => n.path = path
  | .error _ => none

/-- A node and the nodes it is declared in, from the inside out. -/
def ancestors (t : Tree) (i : Nat) : List Nat :=
  match t.parent? i with
  | none => [i]
  | some p => if p < i then i :: ancestors t p else [i]
termination_by i

/-- The nodes of `ancestors`. -/
def chain (t : Tree) (i : Nat) : List TreeNode := (t.ancestors i).filterMap t.node?

end Tree

end StepFlow
