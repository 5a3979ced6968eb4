import StepFlow.Proofs.Job.Closing
import StepFlow.Proofs.Table

/-!
Records without their times. Stages settle and a job closes without a look at when its steps started
and finished, so two jobs whose records differ in their times only close in the same way.
-/

namespace StepFlow

/-- A record without its times. -/
def StepRecord.untimed (r : StepRecord) : StepRecord := { r with started := none, finished := none }

/-- The records of a job without their times. -/
def Job.untimed (j : Job) : List StepRecord := j.steps.map StepRecord.untimed

namespace Job

variable {g : Graph} {j j' : Job}

/-- A record is looked up under its name whether the times are there or not. -/
lemma step?_untimed (j : Job) (name : String) :
    (j.step? name).map StepRecord.untimed = j.untimed.find? fun r => r.name = name := by
  rw [untimed, List.find?_map]
  rfl

/-- The records of a job under the names of the steps, without their times. -/
def byName (j : Job) : Table StepRecord := j.steps.map fun r => (r.name, r.untimed)

lemma names_byName (j : Job) : Table.names j.byName = j.steps.map (·.name) := by
  rw [Table.names, byName, List.map_map]
  rfl

lemma get?_byName (j : Job) (name : String) :
    Table.get? name j.byName = (j.step? name).map StepRecord.untimed := by
  unfold byName step?
  induction j.steps with
  | nil => rfl
  | cons r l ih =>
    rw [List.map_cons, Table.get?_cons, List.find?_cons, ih]
    by_cases hr : r.name = name
    · simp [hr]
    · simp [hr]

/-- Records are given by their names and what stands under each of them. -/
lemma untimed_ext (hnodup : (j.steps.map (·.name)).Nodup)
    (hnames : j.steps.map (·.name) = j'.steps.map (·.name))
    (h : ∀ name, (j.step? name).map StepRecord.untimed = (j'.step? name).map StepRecord.untimed) :
    j.untimed = j'.untimed := by
  have hrecords : ∀ j : Job, j.untimed = j.byName.map (·.2) := by
    intro j
    rw [untimed, byName, List.map_map]
    rfl
  have heq : j.byName = j'.byName := by
    apply Table.ext
    · rw [names_byName]
      exact hnodup
    · rw [names_byName, names_byName, hnames]
    · intro name
      rw [get?_byName, get?_byName]
      exact h name
  rw [hrecords, hrecords, heq]

/-- A failure blocks whenever it happened. -/
lemma hasBlocking_untimed (j : Job) : j.hasBlocking = j.untimed.any (·.isBlocking) := by
  rw [hasBlocking, untimed, List.any_map]
  rfl

/-- The names of the steps of a new job are distinct. -/
lemma ofGraph_names_nodup {f : Flow} (hg : f.compile = .ok g) :
    ((ofGraph g).steps.map (·.name)).Nodup := by
  obtain ⟨ht, -⟩ := Graph.compile_eq_ok hg
  rw [ofGraph, List.map_map]
  refine List.pairwise_map.2 (List.Pairwise.imp_of_mem ?_ ((Tree.build_distinctNames ht).filter _))
  intro a b ha hb hne
  have hra := (List.mem_filter.1 ha).2
  have hrb := (List.mem_filter.1 hb).2
  exact hne (by simpa using hra) (by simpa using hrb)

/-- Under a name that no step of the graph has stands no record. -/
lemma exists_step_of_mem {name : String} (h : name ∈ (ofGraph g).steps.map (·.name)) :
    ∃ i, g.tree.isStep i = true ∧ name = g.name i := by
  obtain ⟨r, hr, rfl⟩ := List.mem_map.1 h
  obtain ⟨n, hn, rfl⟩ := List.mem_map.1 hr
  obtain ⟨hmem, hroot⟩ := List.mem_filter.1 hn
  obtain ⟨i, hi, rfl⟩ := List.getElem_of_mem hmem
  have hnode : g.tree.node? i = some g.tree.nodes[i] := List.getElem?_eq_getElem hi
  refine ⟨i, Tree.isStep_iff.2 ⟨_, hnode, by simpa using hroot⟩, ?_⟩
  simp [Graph.name, Tree.name, hnode, StepRecord.ofNode]

end Job

namespace Run

open Lifecycle (Data)

variable {g : Graph}

/-- What a stage takes from the steps inside it, but for times. -/
lemma untimed_stageRecord (now : Time) (inner : List StepRecord) (r : StepRecord) :
    (stageRecord now inner r).untimed =
      if r.status = .skipped then r.untimed
      else if inner.any (·.isBlocking) then
        { r.untimed with status := .failure, attempts := 0, error := some "nested step failed" }
      else if inner.all (fun c => c.status = .skipped) then
        { r.untimed with status := .skipped, error := some "all nested steps skipped" }
      else { r.untimed with status := .success, attempts := 0, error := none } := by
  unfold stageRecord
  by_cases hs : r.status = .skipped
  · rw [if_pos hs, if_pos hs]
  · rw [if_neg hs, if_neg hs]
    simp only
    by_cases hb : inner.any (·.isBlocking) = true
    · rw [if_pos hb, if_pos hb]
      split <;> rfl
    · rw [if_neg hb, if_neg hb]
      by_cases ha : inner.all (fun c => c.status = .skipped) = true
      · rw [if_pos ha, if_pos ha]
        split <;> rfl
      · rw [if_neg ha, if_neg ha]
        split <;> rfl

lemma stageRecord_untimed (now : Time) (inner : List StepRecord) (r : StepRecord) :
    (stageRecord now inner r).untimed =
      (stageRecord 0 (inner.map StepRecord.untimed) r.untimed).untimed := by
  have hblocking : (inner.map StepRecord.untimed).any (·.isBlocking) = inner.any (·.isBlocking) := by
    rw [List.any_map]
    rfl
  have hskipped : (inner.map StepRecord.untimed).all (fun c => c.status = .skipped) =
      inner.all fun c => c.status = .skipped := by
    rw [List.all_map]
    rfl
  rw [untimed_stageRecord, untimed_stageRecord, hblocking, hskipped]
  rfl

/-- A stage is settled from records without times. -/
lemma settleStage_untimed (g : Graph) (i : Nat) {d d' : Data} (h : d.job.untimed = d'.job.untimed) :
    (settleStage g i d).job.untimed = (settleStage g i d').job.untimed := by
  -- the records of the job as a function of the records it had, times left out
  have hsettle : ∀ d : Data, (settleStage g i d).job.untimed =
      if i = 0 then d.job.untimed
      else d.job.untimed.map fun r =>
        if r.name = g.name i then
          (stageRecord 0 ((g.tree.children i).filterMap fun c =>
            d.job.untimed.find? fun r => r.name = g.name c) r).untimed
        else r := by
    intro d
    rw [settleStage, Job.untimed, Job.updateNode]
    split
    · rfl
    · have hinner : ((g.tree.children i).filterMap fun c => d.job.step? (g.name c)).map
          StepRecord.untimed = (g.tree.children i).filterMap fun c =>
            d.job.untimed.find? fun r => r.name = g.name c := by
        rw [List.map_filterMap]
        simp only [Job.step?_untimed]
      rw [Job.update, Job.untimed, List.map_map, List.map_map, ← Job.untimed, ← hinner]
      apply List.map_congr_left
      intro r _
      show (if r.name = g.name i then _ else r : StepRecord).untimed =
        if r.name = g.name i then _ else r.untimed
      split
      · exact stageRecord_untimed _ _ r
      · rfl
  rw [hsettle, hsettle, h]

/-- All stages are. -/
theorem settleStages_untimed (g : Graph) {d d' : Data} (h : d.job.untimed = d'.job.untimed) :
    (settleStages g d).job.untimed = (settleStages g d').job.untimed := by
  unfold settleStages
  induction (List.range g.size).filter g.tree.isStage with
  | nil => exact h
  | cons k ks ih => exact settleStage_untimed g k ih

/-- **A job that runs** closes in the same way whatever the times in its records. -/
theorem close_untimed (g : Graph) {d d' : Data} (hd : d.job.status = .running)
    (hd' : d'.job.status = .running) (h : d.job.untimed = d'.job.untimed) :
    (close g .success d).job.untimed = (close g .success d').job.untimed ∧
      (close g .success d).job.status = (close g .success d').job.status := by
  have hstages := settleStages_untimed g h
  have hblocking : (settleStages g d).job.hasBlocking = (settleStages g d').job.hasBlocking := by
    rw [Job.hasBlocking_untimed, hstages, Job.hasBlocking_untimed]
  obtain ⟨hstatus, hsteps, -⟩ := close_running (g := g) .success hd rfl
  obtain ⟨hstatus', hsteps', -⟩ := close_running (g := g) .success hd' rfl
  refine ⟨?_, ?_⟩
  · rw [Job.untimed, hsteps, Job.untimed, hsteps']
    exact hstages
  · rw [hstatus, hstatus', Lifecycle.ending, Lifecycle.ending, hblocking]

end Run

end StepFlow
