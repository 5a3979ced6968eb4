import StepFlow.Job
import StepFlow.Machine

/-!
The lifecycle of a job as a machine: pending, created, queued, running, and then success, failure
or timeout; a queued or running job may also be cancelled. A job that should succeed fails instead
if one of its steps failed without leave to do so, and a job that is over stays as it is.
-/

namespace StepFlow.Lifecycle

/-- What the machine works on: the job, the events told so far, and what the clock shows. -/
structure Data where
  job : Job
  events : List Event := []
  now : Time := 0
  deriving DecidableEq, Repr

/-- Brings a job to a status, notes the time, and tells that it started. -/
def Data.setStatus (status : JobStatus) (d : Data) : Data :=
  let job := d.job
  match status with
  | .created => { d with job := { job with status, created := some d.now } }
  | .running =>
    { d with
      job := { job with status, started := some d.now }
      events := d.events ++ [.jobStarted job.flow job.steps.length] }
  | _ =>
    if status.isTerminal then { d with job := { job with status, finished := some d.now } }
    else { d with job := { job with status } }

/-- Tells that the job is over. -/
def Data.tellFinished (d : Data) : Data :=
  { d with events := d.events ++ [.jobFinished d.job.status] }

private def onData (f : Data → Data) (v : View Data) : View Data := { v with data := f v.data }

/-- Brings a job that is not over to a status. -/
def setStatus (status : JobStatus) : Action Data :=
  { canRun := fun v => !v.data.job.status.isTerminal
    accept := .change (onData (Data.setStatus status)) .done }

/-- Lets a job succeed, or fail if a step stands against that. Of a job that is over nothing is
told. -/
def succeed : Action Data :=
  { accept := .look fun v =>
      if v.data.job.status.isTerminal then .change (fun v => { v with skip := true }) .done
      else if v.data.job.hasBlocking then
        .transit JobStatus.running.text JobStatus.failure.text .done
      else .change (onData (Data.setStatus .success)) .done }

/-- The transition between two statuses. -/
def transition (source target : JobStatus) : Transition := ⟨source.text, target.text⟩

/-- The transitions of the lifecycle with their actions. -/
def actions : List (Transition × Action Data) :=
  [ (transition .pending .created, setStatus .created),
    (transition .created .queued, setStatus .queued),
    (transition .queued .running, setStatus .running),
    (transition .queued .cancelled, setStatus .cancelled),
    (transition .running .failure, setStatus .failure),
    (transition .running .timeout, setStatus .timeout),
    (transition .running .cancelled, setStatus .cancelled),
    (transition .running .success, succeed) ]

/-- The machine of the lifecycle; its hook tells that the job is over. -/
def machine : Machine Data :=
  Machine.addHook { name := "job", actions } (fun v => (onData Data.tellFinished v, none))
    [JobStatus.success.text, JobStatus.failure.text, JobStatus.timeout.text,
      JobStatus.cancelled.text]

/-- How many actions can be inside each other, plus one: a success that turns into a failure. -/
def nesting : Nat := 3

/-- Runs a transition of the lifecycle. -/
def advance (source target : JobStatus) (c : Context Data) : Context Data :=
  match machine.execute nesting (transition source target) c with
  | some r => r.context
  | none => c

/-- What a transition makes of the data, in a context of its own. -/
def Data.advance (source target : JobStatus) (d : Data) : Data :=
  (Lifecycle.advance source target { data := d }).data

end StepFlow.Lifecycle
