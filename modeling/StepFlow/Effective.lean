import StepFlow.Tree

/-!
What a step inherits. The nodes around a step, from itself out to the root, are its chain, and each
property is taken from the chain in one of four ways: all texts from the root down, the union of
all sets, the value closest to the step, or for every key the entry closest to the step.
-/

namespace StepFlow

/-- What holds when no node of the chain says otherwise. -/
structure StepDefaults where
  retry : UInt32 := 0
  timeout : UInt64 := 3600
  deriving DecidableEq, Repr

/-- All that an agent needs to run a step. -/
structure EffectiveStep where
  name : String
  path : String
  bash : List String
  pwsh : List String
  conditions : List String
  exports : List String
  secrets : List String
  configs : List String
  timeout : UInt64
  retry : UInt32
  caches : List FileRule
  artifacts : List FileRule
  vars : Table String
  agents : List String
  docker : Option Container
  plugin : Option String
  allowFailure : Bool
  post : Bool
  deriving DecidableEq, Repr

namespace Inherit

/-! ### The four ways

A chain is a list of nodes, the step first and the root last. -/

/-- The texts that are not blank, from the root down. -/
def texts (f : TreeNode → Option String) (chain : List TreeNode) : List String :=
  ((chain.filterMap f).filter fun s => !Text.isBlankText s).reverse

/-- The union of the sets. -/
def union (f : TreeNode → List String) (chain : List TreeNode) : List String :=
  Sorted.ofList (chain.flatMap f)

/-- The value closest to the step. -/
def closest {α : Type} (f : TreeNode → Option α) (chain : List TreeNode) : Option α :=
  chain.findSome? f

/-- Adds the items whose keys are not there yet. -/
def addByKey {α : Type} (key : α → String) (acc : List α) : List α → List α
  | [] => acc
  | x :: r => if acc.any (fun y => key y = key x) then addByKey key acc r
    else addByKey key (acc ++ [x]) r

/-- For every key the item closest to the step, in the order in which the keys are met. -/
def byKey {α : Type} (key : α → String) (items : TreeNode → List α) (chain : List TreeNode) :
    List α :=
  chain.foldl (fun acc n => addByKey key acc (items n)) []

end Inherit

/-- The agents that a node asks for itself, if it asks for any. -/
def TreeNode.ownAgents? (n : TreeNode) : Option (List String) :=
  if n.agents.isEmpty then none else some n.agents

/-- The effective properties of a step whose chain is given. -/
def EffectiveStep.ofChain (defaults : StepDefaults) (own : TreeNode) (chain : List TreeNode) :
    EffectiveStep :=
  { name := own.name
    path := own.path.text
    bash := Inherit.texts (·.bash) chain
    pwsh := Inherit.texts (·.pwsh) chain
    conditions := Inherit.texts (·.condition) chain
    exports := Inherit.union (·.exports) chain
    secrets := Inherit.union (·.secrets) chain
    configs := Inherit.union (·.configs) chain
    timeout := (Inherit.closest (·.timeout) chain).getD defaults.timeout
    retry := (Inherit.closest (·.retry) chain).getD defaults.retry
    caches := Inherit.byKey (·.name) (·.caches) chain
    artifacts := Inherit.byKey (·.name) (·.artifacts) chain
    vars := Inherit.byKey (·.1) (·.vars) chain
    agents := (Inherit.closest TreeNode.ownAgents? chain).getD []
    docker := Inherit.closest (·.docker) chain
    plugin := own.plugin
    allowFailure := own.allowFailure
    post := own.post }

/-- The effective properties of the node at a place, if there is one. -/
def Tree.resolve? (t : Tree) (i : Nat) (defaults : StepDefaults) : Option EffectiveStep :=
  (t.node? i).map fun own => .ofChain defaults own (t.chain i)

end StepFlow
