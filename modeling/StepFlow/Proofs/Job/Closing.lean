import StepFlow.Job.Run
import StepFlow.Proofs.Job.Records
import StepFlow.Proofs.Job.Status

/-!
Opening and closing a job. A new job is brought to where it runs, which tells that it started. When
its walk is over the stages take their records from the steps inside them, which leaves the records
of the leaves alone, and then the job fails or succeeds, which tells that it is over.
-/

namespace StepFlow

namespace Lifecycle

/-- How a job that runs ends when it is to be brought to a status. -/
def ending (target : JobStatus) (j : Job) : JobStatus :=
  if target = .success && j.hasBlocking then .failure else target

/-- **A job that runs** is brought to its end; it fails if it should succeed and a step stands
against that. -/
theorem advance_running (target : JobStatus) {d : Data} (hd : d.job.status = .running)
    (htarget : leads .running target = true) :
    d.advance .running target = (d.setStatus (ending target d.job)).tellFinished := by
  have hrunning : d.job.status.isTerminal = false := by rw [hd]; rfl
  have hterminal : (ending target d.job).isTerminal = true := by
    unfold ending
    split
    · rfl
    · cases target <;> first | rfl | cases htarget
  have hmoved : d.moved .running target = d.bring (ending target d.job) := by
    rw [Data.moved, outcome?, hrunning, htarget, ending]
    cases (target = .success && d.job.hasBlocking : Bool) <;> rfl
  rw [Data.advance, (advance_eq _ _ rfl).2]
  exact hmoved.trans (Data.bring_of_isTerminal _ _ hterminal)

end Lifecycle

namespace Run

open Lifecycle (Data)

/-! ### Opening -/

/-- The data of a new job that was brought to where it runs. -/
def opened (g : Graph) (now : Time) : Data :=
  let d : Data := { job := .ofGraph g, now }
  ((d.advance .pending .created).advance .created .queued).advance .queued .running

/-! ### Stages -/

section Stages

variable {f : Flow} {g : Graph} (d : Data)

theorem stageRecord_label (now : Time) (inner : List StepRecord) (r : StepRecord) :
    (stageRecord now inner r).label = r.label := by
  unfold stageRecord
  split
  · rfl
  · simp only
    split <;> split
    · rfl
    · split <;> rfl
    · rfl
    · split <;> rfl

theorem stageRecord_name (now : Time) (inner : List StepRecord) (r : StepRecord) :
    (stageRecord now inner r).name = r.name :=
  congrArg Prod.fst (stageRecord_label now inner r)

theorem settleStages_events : (settleStages g d).events = d.events := by
  unfold settleStages
  induction (List.range g.size).filter g.tree.isStage with
  | nil => rfl
  | cons k ks ih => exact ih

theorem settleStages_status : (settleStages g d).job.status = d.job.status := by
  unfold settleStages
  induction (List.range g.size).filter g.tree.isStage with
  | nil => rfl
  | cons k ks ih =>
    rw [List.foldr_cons, settleStage, Job.updateNode_status]
    exact ih

/-- Settling some stages leaves the records of all other steps alone. -/
theorem foldr_settleStage_step? (h : f.compile = .ok g) {i : Nat} (hi : g.tree.isStep i = true)
    {stages : List Nat} (hstages : ∀ k ∈ stages, g.tree.isStage k = true) (hne : i ∉ stages) :
    (stages.foldr (settleStage g) d).job.step? (g.name i) = d.job.step? (g.name i) := by
  induction stages with
  | nil => rfl
  | cons k ks ih =>
    obtain ⟨hik, hks⟩ := List.ne_and_not_mem_of_not_mem_cons hne
    rw [List.foldr_cons, settleStage, Job.step?_updateNode h hi
      (Graph.isStep_of_isStage (hstages k List.mem_cons_self)) (stageRecord_name _ _), if_neg hik]
    exact ih (fun x hx => hstages x (List.mem_cons_of_mem _ hx)) hks

/-- **Settling the stages** leaves the records of the leaves alone. -/
theorem settleStages_step? (h : f.compile = .ok g) {i : Nat} (hi : g.tree.isLeaf i = true) :
    (settleStages g d).job.step? (g.name i) = d.job.step? (g.name i) := by
  have hstep := Graph.isStep_of_isLeaf hi
  refine foldr_settleStage_step? d h hstep (fun k hk => (List.mem_filter.1 hk).2) ?_
  intro hmem
  exact Graph.not_isStage_of_isLeaf hi (List.mem_filter.1 hmem).2

end Stages

/-! ### Closing -/

section Closing

variable {f : Flow} {g : Graph} {d : Data} (target : JobStatus)

/-- **Closing a job that runs** settles its stages, brings it to its end, and tells so. -/
theorem close_running (hd : d.job.status = .running)
    (htarget : Lifecycle.leads .running target = true) :
    (close g target d).job.status = Lifecycle.ending target (settleStages g d).job ∧
      (close g target d).job.steps = (settleStages g d).job.steps ∧
      (close g target d).events =
        d.events ++ [.jobFinished (Lifecycle.ending target (settleStages g d).job)] := by
  have hclose := Lifecycle.advance_running target ((settleStages_status (g := g) d).trans hd) htarget
  obtain ⟨s, hs⟩ : ∃ s, s = Lifecycle.ending target (settleStages g d).job := ⟨_, rfl⟩
  rw [close, hclose, ← hs]
  refine ⟨Data.setStatus_status _ s, Data.setStatus_steps _ s, ?_⟩
  have hne : s ≠ .running := by
    rw [hs, Lifecycle.ending]
    split
    · exact fun heq => nomatch heq
    · rintro rfl
      cases htarget
  show (Data.setStatus s _).events ++ [.jobFinished (Data.setStatus s _).job.status] = _
  rw [Data.setStatus_events _ _ hne, Data.setStatus_status, settleStages_events]

/-- The records of a closed job are those of its steps when the stages are settled. -/
lemma close_step?_eq (hd : d.job.status = .running)
    (htarget : Lifecycle.leads .running target = true) (name : String) :
    (close g target d).job.step? name = (settleStages g d).job.step? name := by
  rw [Job.step?, (close_running target hd htarget).2.1]
  rfl

/-- Closing a job leaves the records of its leaves alone. -/
theorem close_step? (h : f.compile = .ok g) (hd : d.job.status = .running)
    (htarget : Lifecycle.leads .running target = true) {i : Nat} (hi : g.tree.isLeaf i = true) :
    (close g target d).job.step? (g.name i) = d.job.step? (g.name i) := by
  rw [close_step?_eq target hd htarget, settleStages_step? d h hi]

/-- A job that should succeed tells that it is over, and leaves the leaves alone. -/
theorem close_success (h : f.compile = .ok g) (hd : d.job.status = .running) :
    (∃ status, (close g .success d).events = d.events ++ [.jobFinished status]) ∧
      ∀ i, g.tree.isLeaf i = true →
        (close g .success d).job.step? (g.name i) = d.job.step? (g.name i) :=
  ⟨⟨_, (close_running .success hd rfl).2.2⟩, fun _ hi => close_step? .success h hd rfl hi⟩

end Closing

end Run

end StepFlow
