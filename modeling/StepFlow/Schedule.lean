import StepFlow.Graph

/-!
Which nodes of a graph may start next. Every node counts down the parents that are not settled yet;
when none is left it becomes ready.
-/

namespace StepFlow

/-- What is known while a graph is worked through. -/
structure Schedule where
  /-- For every node, how many of its parents are not settled. -/
  remaining : List Nat
  /-- The nodes that may start, in order of declaration. -/
  ready : List Nat
  /-- The nodes that are done. -/
  settled : List Nat := []
  deriving DecidableEq, Repr

namespace Schedule

/-- The start: nothing is settled, and the nodes without parents are ready. -/
def start (g : Graph) : Schedule :=
  { remaining := g.nodes.map (·.parents.length)
    ready := (List.range g.size).filter fun i => (g.parents i).isEmpty }

/-- Takes the earliest node that is ready. -/
def pop (s : Schedule) : Option (Nat × Schedule) :=
  match s.ready with
  | [] => none
  | i :: rest => some (i, { s with ready := rest })

/-- Some node is ready. -/
def hasReady (s : Schedule) : Bool := !s.ready.isEmpty

/-- Counts one parent of `child` down. The flag says that this made the child ready. -/
def countDown (s : Schedule) (child : Nat) : Schedule × Bool :=
  let left := s.remaining[child]?.getD 0 - 1
  let s := { s with remaining := s.remaining.set child left }
  if left = 0 && !s.ready.contains child then
    ({ s with ready := Sorted.insert child s.ready }, true)
  else (s, false)

/-- Counts down one parent of each child, and collects those that become ready. -/
def countDownAll (s : Schedule) : List Nat → Schedule × List Nat
  | [] => (s, [])
  | child :: rest =>
    let (s, unblocked) := s.countDown child
    let (s, more) := countDownAll s rest
    (s, if unblocked then child :: more else more)

theorem countDown_settled (s : Schedule) (child : Nat) :
    (s.countDown child).1.settled = s.settled := by
  simp only [countDown]
  split <;> rfl

theorem countDownAll_settled (s : Schedule) (children : List Nat) :
    (s.countDownAll children).1.settled = s.settled := by
  induction children generalizing s with
  | nil => rfl
  | cons child rest ih => simp [countDownAll, ih, countDown_settled]

/-- Settles a node, and returns the children that became ready by it. A node that is settled
already stays as it is. -/
def settle (g : Graph) (s : Schedule) (i : Nat) : Schedule × List Nat :=
  if i ∈ s.settled then (s, [])
  else countDownAll { s with settled := i :: s.settled } (g.children i)

/-- The node is settled. -/
def isSettled (s : Schedule) (i : Nat) : Bool := s.settled.contains i

/-- All nodes are settled. -/
def isComplete (g : Graph) (s : Schedule) : Bool := s.settled.length = g.size

end Schedule

end StepFlow
