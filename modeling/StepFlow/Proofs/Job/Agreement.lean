import StepFlow.Proofs.Graph.Exits
import StepFlow.Proofs.Job.Stages

/-!
Stages and the steps right inside them. A stage that was not skipped before the stages are settled
takes a record that agrees with those of the steps right inside it: it fails when one of them is a
failure that makes the job fail, it is skipped when all of them are, and it succeeds otherwise. So
behind every stage that failed there is a leaf inside it that did.
-/

namespace StepFlow

/-! ### Agreement -/

namespace Job

/-- The record of a step, leaf or stage, is a failure that makes the job fail. -/
def BlocksAt (g : Graph) (j : Job) (i : Nat) : Prop :=
  ∃ r, j.step? (g.name i) = some r ∧ r.isBlocking = true

/-- The record of a stage agrees with the records of the steps right inside it. -/
structure Agrees (g : Graph) (j : Job) (i : Nat) : Prop where
  failure : j.stepStatus g i = some .failure ↔ ∃ c ∈ g.tree.children i, j.BlocksAt g c
  skipped : j.stepStatus g i = some .skipped ↔
    ∀ c ∈ g.tree.children i, j.stepStatus g c = some .skipped
  success : j.stepStatus g i ≠ some .failure → j.stepStatus g i ≠ some .skipped →
    j.stepStatus g i = some .success

section Agreement

variable {g : Graph} {j : Job} {c : Nat}

/-- A step that makes the job fail was not skipped. -/
lemma BlocksAt.not_skipped (h : j.BlocksAt g c) : j.stepStatus g c ≠ some .skipped := by
  obtain ⟨r, hr, hblocks⟩ := h
  have hfailure : r.status.isFailure = true := (Bool.and_eq_true_iff.1 hblocks).1
  rw [stepStatus_eq_some hr, ne_eq, Option.some.injEq]
  intro hs
  rw [hs] at hfailure
  cases hfailure

/-- Agreement is a matter of the records alone. -/
lemma Agrees.of_step?_eq {j' : Job} {i : Nat} (h : j.Agrees g i)
    (hstep : ∀ name, j'.step? name = j.step? name) : j'.Agrees g i := by
  have hstatus : ∀ k, j'.stepStatus g k = j.stepStatus g k := fun k => by
    rw [stepStatus, hstep, stepStatus]
  have hblocks : ∀ k, j'.BlocksAt g k ↔ j.BlocksAt g k := fun k => by
    rw [BlocksAt, hstep, BlocksAt]
  refine ⟨?_, ?_, ?_⟩
  · simpa only [hstatus, hblocks] using h.failure
  · simpa only [hstatus] using h.skipped
  · simpa only [hstatus] using h.success

end Agreement

end Job

namespace Run

open Lifecycle (Data)

section Settled

variable {f : Flow} {g : Graph} {d : Data} {i : Nat}

/-- The records of the steps right inside a stage, when the stages are settled. -/
def innerRecords (g : Graph) (d : Data) (i : Nat) : List StepRecord :=
  (g.tree.children i).filterMap fun c => (settleStages g d).job.step? (g.name c)

lemma any_innerRecords : (innerRecords g d i).any (·.isBlocking) = true ↔
    ∃ c ∈ g.tree.children i, (settleStages g d).job.BlocksAt g c := by
  rw [List.any_eq_true]
  constructor
  · rintro ⟨r, hr, hblocks⟩
    obtain ⟨c, hc, hstep⟩ := List.mem_filterMap.1 hr
    exact ⟨c, hc, r, hstep, hblocks⟩
  · rintro ⟨c, hc, r, hstep, hblocks⟩
    exact ⟨r, List.mem_filterMap.2 ⟨c, hc, hstep⟩, hblocks⟩

lemma all_innerRecords (hg : f.compile = .ok g) (h : Job.Labelled g d.job) :
    (innerRecords g d i).all (fun r => r.status = .skipped) = true ↔
      ∀ c ∈ g.tree.children i, (settleStages g d).job.stepStatus g c = some .skipped := by
  obtain ⟨ht, -⟩ := Graph.compile_eq_ok hg
  rw [List.all_eq_true]
  constructor
  · intro hall c hc
    obtain ⟨-, -, hc_step⟩ := Tree.build_mem_children ht hc
    obtain ⟨-, r, -, hr, -⟩ := (settleStages_labelled h).exists_step? hg hc_step
    rw [Job.stepStatus_eq_some hr, of_decide_eq_true (hall r (List.mem_filterMap.2 ⟨c, hc, hr⟩))]
  · intro hall r hr
    obtain ⟨c, hc, hstep⟩ := List.mem_filterMap.1 hr
    have hskipped := hall c hc
    rw [Job.stepStatus_eq_some hstep, Option.some.injEq] at hskipped
    exact decide_eq_true hskipped

/-- The status of a stage when the stages are settled. -/
lemma settled_stepStatus (hg : f.compile = .ok g) (h : Job.Labelled g d.job)
    (hi : g.tree.isStage i = true) : (settleStages g d).job.stepStatus g i = some
      (if d.job.stepStatus g i = some .skipped then .skipped
      else if (innerRecords g d i).any (·.isBlocking) then .failure
      else if (innerRecords g d i).all (fun r => r.status = .skipped) then .skipped
      else .success) := by
  obtain ⟨-, r, -, hr, -⟩ := h.exists_step? hg (Graph.isStep_of_isStage hi)
  have hsettled := settleStages_stage hg (d := d) hi
  rw [hr] at hsettled
  rw [Job.stepStatus_eq_some hsettled, Job.stepStatus_eq_some hr, stageRecord_status]
  simp only [Option.some.injEq]
  rfl

/-- A stage that was skipped before stays so. -/
lemma settled_skipped (hg : f.compile = .ok g) (h : Job.Labelled g d.job)
    (hi : g.tree.isStage i = true) (hd : d.job.stepStatus g i = some .skipped) :
    (settleStages g d).job.stepStatus g i = some .skipped := by
  rw [settled_stepStatus hg h hi, if_pos hd]

/-- **A stage that was not skipped before** agrees with the steps right inside it. -/
theorem settled_agrees (hg : f.compile = .ok g) (h : Job.Labelled g d.job)
    (hi : g.tree.isStage i = true) (hd : d.job.stepStatus g i ≠ some .skipped) :
    (settleStages g d).job.Agrees g i := by
  obtain ⟨ht, -⟩ := Graph.compile_eq_ok hg
  have hstatus := settled_stepStatus hg h hi
  rw [if_neg hd] at hstatus
  -- a stage has a step inside, so a failure there and no step but skipped ones exclude each other
  have hnot : (∃ c ∈ g.tree.children i, (settleStages g d).job.BlocksAt g c) →
      ¬ ∀ c ∈ g.tree.children i, (settleStages g d).job.stepStatus g c = some .skipped := by
    rintro ⟨c, hc, hblocks⟩ hall
    exact hblocks.not_skipped (hall c hc)
  rw [← any_innerRecords, ← all_innerRecords hg h] at hnot
  constructor
  · rw [hstatus, ← any_innerRecords]
    split
    case isTrue hany => simp [hany]
    case isFalse hany =>
      rw [if_neg hany] at hstatus
      split <;> simp [hany]
  · rw [hstatus, ← all_innerRecords hg h]
    split
    case isTrue hany => simp [hnot hany]
    case isFalse => split <;> simp_all
  · rw [hstatus]
    split
    case isTrue => simp
    case isFalse => split <;> simp

/-- Right inside a stage that failed there is a step that makes the job fail. -/
lemma exists_blocking_child (hg : f.compile = .ok g) (h : Job.Labelled g d.job)
    (hi : g.tree.isStage i = true) {s : StepStatus}
    (hs : (settleStages g d).job.stepStatus g i = some s) (hfailed : s.isFailure = true) :
    ∃ c ∈ g.tree.children i, (settleStages g d).job.BlocksAt g c := by
  rw [settled_stepStatus hg h hi, Option.some.injEq] at hs
  rw [← any_innerRecords]
  by_contra hany
  rw [if_neg hany] at hs
  split_ifs at hs <;> subst hs <;> cases hfailed

/-- **Inside every stage that failed** there is a leaf that makes the job fail. -/
theorem exists_blocking_leaf (hg : f.compile = .ok g) (h : Job.Labelled g d.job)
    (hi : g.tree.isStage i = true)
    (hfailed : (settleStages g d).job.stepStatus g i = some .failure) :
    ∃ k, g.tree.Inside i k ∧ g.tree.isLeaf k = true ∧ d.job.BlocksAt g k := by
  obtain ⟨ht, -⟩ := Graph.compile_eq_ok hg
  -- a step that makes the job fail is such a leaf, or has one inside
  have hfrom : ∀ c, g.tree.isStep c = true → (settleStages g d).job.BlocksAt g c →
      ∃ k, (k = c ∨ g.tree.Inside c k) ∧ g.tree.isLeaf k = true ∧ d.job.BlocksAt g k := by
    intro c hc
    refine Tree.inside_out ht (P := fun c => (settleStages g d).job.BlocksAt g c →
      ∃ k, (k = c ∨ g.tree.Inside c k) ∧ g.tree.isLeaf k = true ∧ d.job.BlocksAt g k) ?_ hc
    rintro c hc ih ⟨r, hr, hblocks⟩
    rcases Graph.isLeaf_or_isStage hc with hleaf | hstage
    · rw [settleStages_step? d hg hleaf] at hr
      exact ⟨c, .inl rfl, hleaf, r, hr, hblocks⟩
    · obtain ⟨c', hc', hblocks'⟩ := exists_blocking_child hg h hstage (Job.stepStatus_eq_some hr)
        (Bool.and_eq_true_iff.1 hblocks).1
      obtain ⟨k, hk, hleaf, hblocks_k⟩ := ih c' hc' hblocks'
      exact ⟨k, .inr (.of_child hc' hk), hleaf, hblocks_k⟩
  obtain ⟨c, hc, hblocks⟩ := exists_blocking_child hg h hi hfailed rfl
  obtain ⟨-, -, hc_step⟩ := Tree.build_mem_children ht hc
  obtain ⟨k, hk, hleaf, hblocks_k⟩ := hfrom c hc_step hblocks
  exact ⟨k, .of_child hc hk, hleaf, hblocks_k⟩

end Settled

end Run

end StepFlow
