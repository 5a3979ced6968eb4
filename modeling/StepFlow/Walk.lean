import StepFlow.Attempt
import StepFlow.Graph.Order
import StepFlow.Job.Lifecycle
import StepFlow.Schedule

/-!
The walk of a job over its graph. A node whose parents are all settled is entered: a leaf waits for
a free slot and is then run, all others are settled at once. When a step fails without leave to do
so, every node behind it is doomed, unless it is marked to run whatever happened, and a doomed node
is skipped when it is entered. The walk itself keeps no clock and runs no agent: it is told how the
attempts in progress end, one by one and in any order.
-/

namespace StepFlow

/-- Why the walk skips a step. -/
def failedBefore : String := "upstream step failed"

/-- A step that is being run, and the number of the attempt in progress. -/
structure Running where
  node : Nat
  step : EffectiveStep
  attempt : UInt32 := 1
  deriving DecidableEq, Repr

/-- What stays the same during a walk. -/
structure WalkPlan where
  graph : Graph
  defaults : StepDefaults := {}
  /-- How many steps may be run at once; there is always room for one. -/
  maxParallel : Nat := 4

/-- How many steps may be run at once. -/
def WalkPlan.slots (p : WalkPlan) : Nat := max 1 p.maxParallel

/-- The state of a walk. -/
structure Walk where
  schedule : Schedule
  /-- The nodes to be skipped. -/
  doomed : List Nat := []
  /-- The leaves that wait for a slot, the next one first. -/
  waiting : List Nat := []
  /-- The steps that are being run, in the order in which they were started. -/
  running : List Running := []
  data : Lifecycle.Data
  deriving DecidableEq, Repr

namespace Walk

/-! ### Records and events -/

/-- Changes the record of a node. -/
def record (g : Graph) (i : Nat) (f : Time → StepRecord → StepRecord) (w : Walk) : Walk :=
  { w with data := { w.data with job := w.data.job.updateNode g i (f w.data.now) } }

/-- Tells an event. -/
def tell (e : Event) (w : Walk) : Walk :=
  { w with data := { w.data with events := w.data.events ++ [e] } }

/-- The clock shows a time. -/
def tick (now : Time) (w : Walk) : Walk := { w with data := { w.data with now } }

/-- Settles a node. -/
def settle (g : Graph) (i : Nat) (w : Walk) : Walk :=
  { w with schedule := (w.schedule.settle g i).1 }

/-- Skips a node, and tells so. -/
def skip (g : Graph) (i : Nat) (reason : String) (w : Walk) : Walk :=
  (w.record g i fun now => StepRecord.skip now reason).tell (.stepSkipped (g.name i) reason)

/-! ### Entering nodes -/

/-- Enters a node that was ready. -/
def enter (g : Graph) (i : Nat) (w : Walk) : Walk :=
  if i ∈ w.doomed then (w.skip g i failedBefore).settle g i
  else if g.tree.isLeaf i then { w with waiting := w.waiting ++ [i] }
  else w.settle g i

/-- How much there is to enter: the nodes not settled yet, then the ready ones. -/
def toEnter (g : Graph) (w : Walk) : Nat × Nat :=
  (Graph.unvisited g.size w.schedule.settled, w.schedule.ready.length)

theorem toEnter_settle_lt {g : Graph} {i : Nat} {w v : Walk}
    (h : v.schedule.settled = w.schedule.settled)
    (hlen : v.schedule.ready.length < w.schedule.ready.length) :
    Prod.Lex (· < ·) (· < ·) (toEnter g (v.settle g i)) (toEnter g w) := by
  unfold toEnter settle Schedule.settle
  simp only
  split
  · rw [h]
    exact Prod.Lex.right _ hlen
  · rename_i hi
    rw [Schedule.countDownAll_settled]
    by_cases hs : i < g.size
    · rw [← h]
      exact Prod.Lex.left _ _ (Graph.unvisited_cons_lt hs hi)
    · have hc : g.children i = [] := Graph.children_of_size_le (by omega)
      have hu : Graph.unvisited g.size (i :: v.schedule.settled) =
          Graph.unvisited g.size w.schedule.settled := by
        rw [h]
        exact Graph.unvisited_cons_of_le (by omega)
      rw [hc, hu]
      exact Prod.Lex.right _ hlen

/-- Enters nodes, the earliest that is ready first, until none is ready. -/
def enterAll (g : Graph) (w : Walk) : Walk :=
  match _h : w.schedule.pop with
  | none => w
  | some (i, schedule) => enterAll g (enter g i { w with schedule })
termination_by toEnter g w
decreasing_by
  have hs : schedule.settled = w.schedule.settled ∧
      schedule.ready.length < w.schedule.ready.length := by
    unfold Schedule.pop at _h
    split at _h
    · simp at _h
    · rename_i hr
      simp only [Option.some.injEq, Prod.mk.injEq] at _h
      obtain ⟨rfl, rfl⟩ := _h
      simp [hr]
  unfold enter
  split
  · exact toEnter_settle_lt hs.1 hs.2
  · split
    · unfold toEnter
      simp only [hs.1]
      exact Prod.Lex.right _ hs.2
    · exact toEnter_settle_lt hs.1 hs.2

/-! ### Running leaves -/

/-- Starts to run a leaf. -/
def startLeaf (p : WalkPlan) (i : Nat) (w : Walk) : Walk :=
  match p.graph.tree.resolve? i p.defaults with
  | none => w
  | some step =>
    let w := (w.record p.graph i StepRecord.start).tell (.stepStarted step.name step.path)
    { w with running := w.running ++ [{ node := i, step }] }

/-- Starts waiting leaves while there are free slots. -/
def startLeaves (p : WalkPlan) : List Nat → Walk → Walk
  | [], w => { w with waiting := [] }
  | i :: rest, w =>
    if w.running.length < p.slots then startLeaves p rest (w.startLeaf p i)
    else { w with waiting := i :: rest }

/-- Goes on until all that is left is to wait for the end of an attempt. -/
def proceed (p : WalkPlan) (w : Walk) : Walk :=
  let w := enterAll p.graph w
  startLeaves p w.waiting w

/-- The nodes to be skipped because the step of a node ended with a status. -/
def dooms (g : Graph) (i : Nat) (status : StepStatus) : List Nat :=
  match g.tree.node? i with
  | none => []
  | some n =>
    if status.isFailure && !n.allowFailure then
      (g.behind i).filter fun j => !((g.tree.node? j).map (·.post)).getD false
    else []

/-- Ends the step of a node: notes and tells the outcome, dooms what has to be skipped, and settles
the node. -/
def finishLeaf (g : Graph) (r : Running) (o : Outcome) (w : Walk) : Walk :=
  let w := { w with running := w.running.filter fun s => s.node ≠ r.node }
  let w := w.record g r.node fun now => StepRecord.finish now o.status o.attempts o.error
  let w := w.tell (.stepFinished (g.name r.node) o.status o.attempts o.error)
  settle g r.node { w with doomed := w.doomed ++ dooms g r.node o.status }

/-- Tries a step once more. -/
def retryLeaf (r : Running) (w : Walk) : Walk :=
  let next := { r with attempt := r.attempt + 1 }
  let w := w.tell (Attempt.retrying r.step next.attempt)
  { w with running := w.running.map fun s => if s.node = r.node then next else s }

/-- The attempt in progress at a node has ended. Nothing happens if there is none. -/
def answer (p : WalkPlan) (i : Nat) (e : AttemptEnd) (w : Walk) : Walk :=
  match w.running.find? fun r => r.node = i with
  | none => w
  | some r =>
    if Attempt.isRetried r.step r.attempt e then w.retryLeaf r
    else (w.finishLeaf p.graph r (Attempt.outcome r.step r.attempt e)).proceed p

/-- The walk before anything was entered. -/
def ofData (g : Graph) (data : Lifecycle.Data) : Walk := { schedule := .start g, data }

/-- Nothing is being run: the walk is over. -/
def isOver (w : Walk) : Bool := w.running.isEmpty

end Walk

end StepFlow
