import StepFlow.Walk

/-!
A job from its start to its end: the lifecycle up to the walk, and what follows when the walk is
over or is cut short by the job's time limit. Steps that the walk left behind are brought to an
end, stages take their status from the steps inside them, and the lifecycle closes.
-/

namespace StepFlow.Run

open Lifecycle (Data)

/-- What is noted for steps that the job's time limit cut off. -/
def jobTimedOut : String := "job timed out"

/-- What is noted for steps that were never reached. -/
def jobAborted : String := "job aborted"

/-- The walk of a new job, up to where the first attempts are made. -/
def start (p : WalkPlan) (now : Time) : Walk :=
  let d : Data := { job := .ofGraph p.graph, now }
  let d := d.advance .pending .created
  let d := d.advance .created .queued
  let d := d.advance .queued .running
  (Walk.ofData p.graph d).proceed p

/-! ### Steps left behind -/

/-- Brings a leaf to an end: `status` is for one that is being run, and one that was not started
is skipped. -/
def abandonLeaf (g : Graph) (status : StepStatus) (reason : String) (d : Data) (i : Nat) : Data :=
  match (d.job.step? (g.name i)).map fun r => r.status with
  | some StepStatus.running =>
    let job := d.job.updateNode g i fun r =>
      r.finish d.now status (if r.attempts = 0 then 1 else r.attempts) (some reason)
    { d with job }
  | some StepStatus.pending =>
    { d with
      job := d.job.updateNode g i (StepRecord.skip d.now reason)
      events := d.events ++ [.stepSkipped (g.name i) reason] }
  | _ => d

/-- Brings all leaves to an end. -/
def abandon (g : Graph) (status : StepStatus) (reason : String) (d : Data) : Data :=
  ((List.range g.size).filter g.tree.isLeaf).foldl (abandonLeaf g status reason) d

/-! ### Stages -/

/-- The record of a stage follows from the records of the steps right inside it, unless the stage
was skipped by the walk. -/
def stageRecord (now : Time) (inner : List StepRecord) (r : StepRecord) : StepRecord :=
  if r.status = .skipped then r
  else
    let r := { r with started := (inner.filterMap StepRecord.started).min? }
    let r :=
      if inner.any (·.isBlocking) then r.finish now .failure 0 (some "nested step failed")
      else if inner.all (fun c => c.status = .skipped) then r.skip now "all nested steps skipped"
      else r.finish now .success 0 none
    match (inner.filterMap StepRecord.finished).max? with
    | some time => { r with finished := some time }
    | none => r

/-- Settles the record of a stage. -/
def settleStage (g : Graph) (i : Nat) (d : Data) : Data :=
  let inner := (g.tree.children i).filterMap fun c => d.job.step? (g.name c)
  { d with job := d.job.updateNode g i (stageRecord d.now inner) }

/-- Settles the records of all stages, the last one first, so that a stage comes after those
inside it. -/
def settleStages (g : Graph) (d : Data) : Data :=
  ((List.range g.size).filter g.tree.isStage).foldr (settleStage g) d

/-! ### The end -/

/-- Closes the lifecycle. -/
def close (g : Graph) (target : JobStatus) (d : Data) : Data :=
  (settleStages g d).advance .running target

/-- The end of a job whose walk is over. It fails if some node was never reached. -/
def complete (g : Graph) (w : Walk) : Data :=
  if w.schedule.isComplete g then close g .success w.data
  else close g .failure (abandon g .failure jobAborted w.data)

/-- The end of a job whose time limit struck during the walk. -/
def cutShort (g : Graph) (w : Walk) : Data :=
  close g .timeout (abandon g .timeout jobTimedOut w.data)

end StepFlow.Run
