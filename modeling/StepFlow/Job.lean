import StepFlow.Flow.Print
import StepFlow.Graph

/-!
The record of a job, that is, of one run of a flow: the status of the job and of each of its steps,
when they started and finished, and what went wrong. As JSON the points in time are written by a
function that the caller gives, and those that are not known yet are left out.
-/

namespace StepFlow

/-! ### Statuses -/

/-- The status of a job. -/
inductive JobStatus where
  | pending
  | created
  | queued
  | running
  | success
  | failure
  | cancelled
  | timeout
  deriving DecidableEq, Repr

namespace JobStatus

/-- All statuses. -/
def all : List JobStatus :=
  [.pending, .created, .queued, .running, .success, .failure, .cancelled, .timeout]

/-- The name of a status. -/
def text : JobStatus → String
  | .pending => "PENDING"
  | .created => "CREATED"
  | .queued => "QUEUED"
  | .running => "RUNNING"
  | .success => "SUCCESS"
  | .failure => "FAILURE"
  | .cancelled => "CANCELLED"
  | .timeout => "TIMEOUT"

/-- The status of a name. -/
def ofText? (s : String) : Option JobStatus := all.find? fun j => j.text = s

/-- A job with this status is over. -/
def isTerminal : JobStatus → Bool
  | .success | .failure | .cancelled | .timeout => true
  | _ => false

end JobStatus

/-- The status of a step. -/
inductive StepStatus where
  | pending
  | running
  | success
  | failure
  | skipped
  | timeout
  deriving DecidableEq, Repr

namespace StepStatus

/-- All statuses. -/
def all : List StepStatus := [.pending, .running, .success, .failure, .skipped, .timeout]

/-- The name of a status. -/
def text : StepStatus → String
  | .pending => "PENDING"
  | .running => "RUNNING"
  | .success => "SUCCESS"
  | .failure => "FAILURE"
  | .skipped => "SKIPPED"
  | .timeout => "TIMEOUT"

/-- The status of a name. -/
def ofText? (s : String) : Option StepStatus := all.find? fun j => j.text = s

/-- A step with this status is over. -/
def isTerminal : StepStatus → Bool
  | .pending | .running => false
  | _ => true

/-- The step failed or took too long. -/
def isFailure : StepStatus → Bool
  | .failure | .timeout => true
  | _ => false

end StepStatus

/-! ### Records -/

/-- A point in time, in milliseconds. -/
abbrev Time := Int

/-- The record of a step. -/
structure StepRecord where
  name : String
  path : String
  status : StepStatus := .pending
  attempts : UInt32 := 0
  allowFailure : Bool := false
  started : Option Time := none
  finished : Option Time := none
  error : Option String := none
  deriving DecidableEq, Repr

namespace StepRecord

/-- The step starts. -/
def start (now : Time) (r : StepRecord) : StepRecord :=
  { r with status := .running, started := some now }

/-- The step is over after a number of attempts. -/
def finish (now : Time) (status : StepStatus) (attempts : UInt32) (error : Option String)
    (r : StepRecord) : StepRecord :=
  { r with status, attempts, error, finished := some now }

/-- The step is left out. -/
def skip (now : Time) (reason : String) (r : StepRecord) : StepRecord :=
  { r with status := .skipped, error := some reason, finished := some now }

/-- A failure that makes the job fail. -/
def isBlocking (r : StepRecord) : Bool := r.status.isFailure && !r.allowFailure

/-- The record of a step before the job starts. -/
def ofNode (n : TreeNode) : StepRecord :=
  { name := n.name, path := n.path.text, allowFailure := n.allowFailure }

end StepRecord

/-- The record of a job, with one record per step in order of declaration. -/
structure Job where
  flow : String
  status : JobStatus := .pending
  created : Option Time := none
  started : Option Time := none
  finished : Option Time := none
  steps : List StepRecord
  deriving DecidableEq, Repr

namespace Job

/-- The record of a job over a graph, before it starts. -/
def ofGraph (g : Graph) : Job :=
  { flow := g.name 0
    steps := (g.tree.nodes.filter fun n => !n.isRoot).map .ofNode }

/-- The record of the step of a name. -/
def step? (j : Job) (name : String) : Option StepRecord := j.steps.find? fun r => r.name = name

/-- Changes the record of the step of a name, if there is one. -/
def update (j : Job) (name : String) (f : StepRecord → StepRecord) : Job :=
  { j with steps := j.steps.map fun r => if r.name = name then f r else r }

/-- Changes the record of the step at a node; the root has none. -/
def updateNode (g : Graph) (j : Job) (i : Nat) (f : StepRecord → StepRecord) : Job :=
  if i = 0 then j else j.update (g.name i) f

/-- Some step failed in a way that makes the job fail. -/
def hasBlocking (j : Job) : Bool := j.steps.any (·.isBlocking)

/-- How many steps have a status. -/
def count (j : Job) (s : StepStatus) : Nat := j.steps.countP fun r => r.status = s

/-- How many steps are over, and how many there are; both are one if there are none. -/
def progress (j : Job) : Nat × Nat :=
  if j.steps.isEmpty then (1, 1)
  else (j.steps.countP fun r => r.status.isTerminal, j.steps.length)

end Job

/-! ### Records as JSON -/

section Printing

open Json (field?)

/-- The record of a step as JSON. -/
def StepRecord.toJson (time : Time → String) (r : StepRecord) : Json :=
  .obj ([("name", .str r.name), ("path", .str r.path), ("status", .str r.status.text),
    ("attempts", Json.nat r.attempts.toNat), ("allow_failure", .bool r.allowFailure)] ++
    field? "started_at" (fun t => .str (time t)) r.started ++
    field? "finished_at" (fun t => .str (time t)) r.finished ++ field? "error" .str r.error)

/-- The record of a job as JSON. -/
def Job.toJson (id : String) (time : Time → String) (j : Job) : Json :=
  .obj ([("job_id", .str id), ("flow", .str j.flow), ("status", .str j.status.text)] ++
    field? "created_at" (fun t => .str (time t)) j.created ++
    field? "started_at" (fun t => .str (time t)) j.started ++
    field? "finished_at" (fun t => .str (time t)) j.finished ++
    [("steps", .obj (j.steps.map fun r => (r.name, r.toJson time)))])

end Printing

/-! ### Events -/

/-- What is told about a job while it runs. -/
inductive Event where
  | jobStarted (flow : String) (steps : Nat)
  | stepStarted (step path : String)
  | stepRetrying (step : String) (attempt maxAttempts : UInt32)
  | stepFinished (step : String) (status : StepStatus) (attempts : UInt32) (error : Option String)
  | stepSkipped (step reason : String)
  | jobFinished (status : JobStatus)
  deriving DecidableEq, Repr

end StepFlow
