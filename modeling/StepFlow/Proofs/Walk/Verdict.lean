import StepFlow.Proofs.Job.Stages
import StepFlow.Proofs.Walk.Ending
import StepFlow.Proofs.Walk.Story

/-!
The verdict on a job. A walk changes the records of leaves, and those of stages only to skip them;
so a stage that stands against the success of the job in the end has a leaf inside that does, and
the verdict is that of the leaves. If no leaf stands against it nothing was ever doomed, so a job
that succeeds has skipped nothing.
-/

namespace StepFlow.Walk

section Verdict

variable {f : Flow} {p : WalkPlan} {driver : Driver} {now : Time} {w w' : Walk} {i k : Nat}

/-! ### The records of a walk -/

/-- A step of a walk changes no record and tells nothing, or it tells something of a leaf and may
change its record, or it skips what is doomed and tells so. -/
lemma Step.data_cases (hplaced : Placed p w) (hstep : Step p driver w w') :
    (w'.data.job = w.data.job ∧ w'.data.events = w.data.events) ∨
    (∃ k change e, p.graph.tree.isLeaf k = true ∧ (∀ r, (change r).label = r.label) ∧
      w'.data.job = w.data.job.updateNode p.graph k change ∧
      e.step? = some (p.graph.name k) ∧ w'.data.events = w.data.events ++ [e]) ∨
    ∃ k ∈ w.doomed, w'.data.job =
        w.data.job.updateNode p.graph k (StepRecord.skip w.data.now failedBefore) ∧
      w'.data.events = w.data.events ++ [.stepSkipped (p.graph.name k) failedBefore] := by
  cases hstep with
  | tick => exact .inl ⟨rfl, rfl⟩
  | enter hpop =>
    unfold Walk.enter
    split
    case isTrue hdoomed => exact .inr (.inr ⟨_, hdoomed, rfl, rfl⟩)
    case isFalse => exact .inl (by split <;> exact ⟨rfl, rfl⟩)
  | start _ hwaiting _ =>
    obtain ⟨hleaf, -, -⟩ := hplaced.fresh_of_waiting hwaiting
    obtain ⟨n, step, hn, hstep, hname, -⟩ := resolve_of_leaf hleaf p.defaults
    rw [startLeaf_eq hstep]
    refine .inr (.inl ⟨_, StepRecord.start w.data.now, _, hleaf, fun _ => rfl, rfl, ?_, rfl⟩)
    exact congrArg some (hname.trans (name_eq hn).symm)
  | @retry r _ hr =>
    have hleaf := hplaced.leaf _ (List.mem_append_right _ (mem_runningNodes hr))
    have hsame : w.data.job = w.data.job.updateNode p.graph r.node fun r => r := by
      simp [Job.updateNode, Job.update]
    exact .inr (.inl ⟨_, fun r => r, Attempt.retrying r.step (r.attempt + 1), hleaf, fun _ => rfl,
      hsame, congrArg some (hplaced.step_name hr), rfl⟩)
  | finish _ _ hr =>
    have hleaf := hplaced.leaf _ (List.mem_append_right _ (mem_runningNodes hr))
    exact .inr (.inl ⟨_, StepRecord.finish _ _ _ _, _, hleaf, fun _ => rfl, rfl, rfl, rfl⟩)

/-- What is doomed stays doomed. -/
lemma Step.doomed_subset (hstep : Step p driver w w') : w.doomed ⊆ w'.doomed := by
  cases hstep with
  | tick => exact List.Subset.refl _
  | enter =>
    unfold Walk.enter
    split
    · exact List.Subset.refl _
    · split <;> exact List.Subset.refl _
  | start =>
    unfold startLeaf
    split <;> exact List.Subset.refl _
  | retry => exact List.Subset.refl _
  | finish => exact List.subset_append_left _ _

/-- What holds of the records of all steps at every moment of a walk. -/
structure Kept (p : WalkPlan) (w : Walk) : Prop where
  labelled : Job.Labelled p.graph w.data.job
  stage : ∀ i, p.graph.tree.isStage i = true → w.data.job.stepStatus p.graph i = some .pending ∨
    w.data.job.stepStatus p.graph i = some .skipped ∧ i ∈ w.doomed

lemma kept_fresh (hg : f.compile = .ok p.graph) (now : Time) : Kept p (fresh p.graph now) :=
  ⟨rfl, fun _ hi => .inl (Job.stepStatus_ofGraph hg (Graph.isStep_of_isStage hi))⟩

theorem Kept.step (hg : f.compile = .ok p.graph) (hplaced : Placed p w) (hrecorded : Recorded p w)
    (h : Kept p w) (hstep : Step p driver w w') : Kept p w' := by
  have hdoomed : ∀ i, p.graph.tree.isStage i = true →
      w'.data.job.stepStatus p.graph i = w.data.job.stepStatus p.graph i →
      w'.data.job.stepStatus p.graph i = some .pending ∨
        w'.data.job.stepStatus p.graph i = some .skipped ∧ i ∈ w'.doomed := by
    intro i hi heq
    rw [heq]
    exact (h.stage i hi).imp_right fun hskipped => ⟨hskipped.1, hstep.doomed_subset hskipped.2⟩
  rcases hstep.data_cases hplaced with
    ⟨hsame, -⟩ | ⟨k, change, -, hk, hlabel, hjob, -⟩ | ⟨k, hk, hjob, -⟩
  · refine ⟨?_, fun i hi => hdoomed i hi ?_⟩
    · rw [hsame]
      exact h.labelled
    · rw [hsame]
  · refine ⟨?_, fun i hi => hdoomed i hi ?_⟩
    · rw [hjob]
      exact h.labelled.updateNode hlabel
    · have hstage := Graph.isStep_of_isStage hi
      have hne : i ≠ k := by
        rintro rfl
        exact Graph.not_isStage_of_isLeaf hk hi
      rw [hjob]
      exact Job.stepStatus_updateNode_of_ne hg hstage (Graph.isStep_of_isLeaf hk)
        (fun r => congrArg Prod.fst (hlabel r)) hne
  · have hk_step := hrecorded.isStep_of_doomed hg hk
    refine ⟨?_, fun i hi => ?_⟩
    · rw [hjob]
      exact h.labelled.updateNode fun _ => rfl
    · have hstage := Graph.isStep_of_isStage hi
      by_cases hik : i = k
      · subst hik
        refine .inr ⟨?_, hstep.doomed_subset hk⟩
        rw [hjob]
        exact Job.stepStatus_updateNode_self hg hstage
          (fun r => StepRecord.skip_name w.data.now r failedBefore)
          (fun r => StepRecord.skip_status w.data.now r failedBefore)
          (h.labelled.status_ne_none hg hstage)
      · refine hdoomed i hi ?_
        rw [hjob]
        exact Job.stepStatus_updateNode_of_ne hg hstage hk_step (fun _ => rfl) hik

/-- **Every walk reached** from the walk of a new job keeps a record of each step, and changes those
of stages only to skip what is doomed. -/
theorem steps_kept (hg : f.compile = .ok p.graph) (h : Steps p driver (fresh p.graph now) w) :
    Kept p w := by
  induction h with
  | refl => exact kept_fresh hg now
  | tail hsteps hstep ih =>
    obtain ⟨hplaced, hrecorded⟩ := steps_recorded hg hsteps
    exact ih.step hg hplaced hrecorded hstep

/-- A stage that the walk skipped may not run because of a leaf before it. -/
lemma Kept.dooms_of_skipped (hrecorded : Recorded p w) (h : Kept p w)
    (hi : p.graph.tree.isStage i = true)
    (hs : w.data.job.stepStatus p.graph i = some .skipped) : w.data.job.Dooms p.graph i := by
  rcases h.stage i hi with hpending | ⟨-, hdoomed⟩
  · cases hs.symm.trans hpending
  · exact (hrecorded.doomed i).1 hdoomed

/-! ### Who stands against a success -/

/-- A leaf stands against the success of the job when its record does. -/
lemma blocks_iff (hg : f.compile = .ok p.graph) {j : Job} (h : Job.Labelled p.graph j) :
    j.Blocks p.graph k ↔ p.graph.tree.isLeaf k = true ∧
      ∃ r, j.step? (p.graph.name k) = some r ∧ r.isBlocking = true := by
  refine and_congr_right fun hk => ?_
  obtain ⟨n, r, hn, hr, hallow⟩ := h.exists_step? hg (Graph.isStep_of_isLeaf hk)
  have hallows : p.graph.allowsFailure k = n.allowFailure := by simp [Graph.allowsFailure, hn]
  have hfailed : r.status.isFailure = true ↔ r.status = .failure ∨ r.status = .timeout := by
    cases r.status <;> simp [StepStatus.isFailure]
  simp [Job.stepStatus, hr, hallows, StepRecord.isBlocking, hallow, hfailed]

/-- The stages of a walk do not stand against the success of the job. -/
lemma Kept.hasBlocking_iff (hg : f.compile = .ok p.graph) (h : Kept p w) :
    w.data.job.hasBlocking = true ↔ ∃ k, w.data.job.Blocks p.graph k := by
  constructor
  · intro hblocking
    obtain ⟨r, hr, hblocks⟩ := List.any_eq_true.1 hblocking
    obtain ⟨i, hi, hr⟩ := (h.labelled.mem_steps_iff hg).1 hr
    rcases Graph.isLeaf_or_isStage hi with hleaf | hstage
    · exact ⟨i, (blocks_iff hg h.labelled).2 ⟨hleaf, r, hr, hblocks⟩⟩
    · have hfailure : r.status.isFailure = true := (Bool.and_eq_true_iff.1 hblocks).1
      have hstatus := Job.stepStatus_eq_some hr
      rcases h.stage i hstage with hs | ⟨hs, -⟩
      · rw [Option.some.inj (hstatus.symm.trans hs)] at hfailure
        cases hfailure
      · rw [Option.some.inj (hstatus.symm.trans hs)] at hfailure
        cases hfailure
  · rintro ⟨k, hk⟩
    obtain ⟨-, r, hr, hblocks⟩ := (blocks_iff hg h.labelled).1 hk
    exact List.any_eq_true.2 ⟨r, List.mem_of_find?_eq_some hr, hblocks⟩

lemma Kept.settled_hasBlocking_iff (hg : f.compile = .ok p.graph) (h : Kept p w) :
    (Run.settleStages p.graph w.data).job.hasBlocking = true ↔
      ∃ k, w.data.job.Blocks p.graph k := by
  rw [Run.settled_hasBlocking_iff hg h.labelled]
  simp only [blocks_iff hg h.labelled]
  constructor
  · rintro ⟨i, r, hi, hr, hblocks⟩
    exact ⟨i, hi, r, hr, hblocks⟩
  · rintro ⟨i, hi, r, hr, hblocks⟩
    exact ⟨i, r, hi, hr, hblocks⟩

/-- A walk in which no leaf stands against the success of the job has skipped nothing when it is
over. -/
lemma Kept.not_skipped (hg : f.compile = .ok p.graph) (hplaced : Placed p w)
    (hrecorded : Recorded p w) (h : Kept p w) (hover : Over w)
    (hnone : ¬ ∃ k, w.data.job.Blocks p.graph k) {r : StepRecord}
    (hi : p.graph.tree.isStep i = true) (hr : w.data.job.step? (p.graph.name i) = some r) :
    r.status ≠ .skipped := by
  intro hskipped
  have hstatus : w.data.job.stepStatus p.graph i = some .skipped :=
    hskipped ▸ Job.stepStatus_eq_some hr
  have hdooms : w.data.job.Dooms p.graph i := by
    rcases Graph.isLeaf_or_isStage hi with hleaf | hstage
    · exact (hrecorded.skipped_iff hg hplaced hover hleaf).1 hstatus
    · exact h.dooms_of_skipped hrecorded hstage hstatus
  obtain ⟨-, k, hk, -⟩ := hdooms
  exact hnone ⟨k, hk⟩

/-! ### The verdict -/

/-- **The verdict on a job** is that of its leaves. Whatever happened so far, the walk can be brought
to its end if only every attempt ends in some way. When the walk is over the job succeeds just when
no leaf ended in failure or timeout without leave to do so, and fails otherwise; that is the verdict
which the job would get with the records of its stages left as the walk left them; and a job that
succeeds has skipped no step, be it a leaf or a stage. -/
theorem verdict_of_leaves (hg : f.compile = .ok p.graph)
    (h : Steps p driver (fresh p.graph now) w) :
    ((∀ step attempt, ∃ e, driver step attempt e) → ∃ w', Steps p driver w w' ∧ Over w') ∧
    (Over w →
      ((Run.complete p.graph w).job.status = .success ↔ ¬ ∃ k, p.graph.tree.isLeaf k = true ∧
        ((Run.complete p.graph w).job.stepStatus p.graph k = some .failure ∨
          (Run.complete p.graph w).job.stepStatus p.graph k = some .timeout) ∧
        p.graph.allowsFailure k = false) ∧
      ((Run.complete p.graph w).job.status ≠ .success →
        (Run.complete p.graph w).job.status = .failure) ∧
      (Run.complete p.graph w).job.status = (w.data.advance .running .success).job.status ∧
      ((Run.complete p.graph w).job.status = .success →
        ∀ r ∈ (Run.complete p.graph w).job.steps, r.status ≠ .skipped)) := by
  obtain ⟨hplaced, hrecorded⟩ := steps_recorded hg h
  have hkept := steps_kept hg h
  refine ⟨fun hdriver => exists_over (Graph.compile_sound hg) hdriver hplaced, fun hover => ?_⟩
  have hblocks : ∀ k, (Run.complete p.graph w).job.Blocks p.graph k ↔
      w.data.job.Blocks p.graph k := by
    intro k
    refine and_congr_right fun hk => ?_
    rw [complete_stepStatus hg h hover hk]
  obtain ⟨hstatus, hsteps, -⟩ := Run.close_running (g := p.graph) .success hrecorded.job rfl
  rw [← complete_eq hg hplaced hover] at hstatus hsteps
  have hverdict : (Run.complete p.graph w).job.status =
      if (Run.settleStages p.graph w.data).job.hasBlocking then .failure else .success := by
    rw [hstatus, Lifecycle.ending]
    simp
  have hsuccess : (Run.complete p.graph w).job.status = .success ↔
      ¬ ∃ k, w.data.job.Blocks p.graph k := by
    rw [hverdict, ← hkept.settled_hasBlocking_iff hg]
    split
    case isTrue hblocking => simp [hblocking]
    case isFalse hblocking => simp [hblocking]
  refine ⟨?_, ?_, ?_, ?_⟩
  · rw [hsuccess]
    exact not_congr (exists_congr fun k => (hblocks k).symm)
  · rw [hverdict]
    split
    · exact fun _ => rfl
    · exact fun hne => absurd rfl hne
  · have hsame : (Run.settleStages p.graph w.data).job.hasBlocking = w.data.job.hasBlocking := by
      rw [Bool.eq_iff_iff, hkept.settled_hasBlocking_iff hg, hkept.hasBlocking_iff hg]
    rw [Lifecycle.advance_running .success hrecorded.job rfl, hstatus, Lifecycle.ending, hsame]
    exact (Lifecycle.Data.setStatus_status _ _).symm
  · intro hgreen
    rw [hsteps]
    exact Run.settled_not_skipped hg hkept.labelled fun i r hi hr =>
      hkept.not_skipped hg hplaced hrecorded hover (hsuccess.1 hgreen) hi hr

end Verdict

/-! ### A check that may fail -/

/-- Two checks inside a stage, one of which is allowed to fail, and a step behind them. -/
def nightly : Flow where
  steps :=
    [("build", { spec := { bash := some "make" } }),
      ("checks", { steps :=
        [("lint", { spec := { bash := some "make lint", allowFailure := some true } }),
          ("test", { spec := { bash := some "make test" } })] }),
      ("publish", { spec := { bash := some "make dist" } })]

/-- The run in which that check fails. -/
def nightlyRun (g : Graph) : Walk :=
  (Timeline.run { graph := g } (failingAt "lint") 0 none).walk

lemma nightlyRun_over : ∃ g, nightly.compile = .ok g ∧ Over (nightlyRun g) ∧
    g.tree.isLeaf 3 = true ∧ (Run.complete g (nightlyRun g)).job.stepStatus g 3 = some .failure ∧
    (Run.complete g (nightlyRun g)).job.status = .success :=
  Graph.exists_compiled (by cbv)

theorem verdict_of_leaves_nightly : ∃ g, nightly.compile = .ok g ∧
    Steps { graph := g } .any (fresh g 0) (nightlyRun g) ∧ Over (nightlyRun g) ∧
    (Run.complete g (nightlyRun g)).job.stepStatus g 3 = some .failure ∧
    g.allowsFailure 3 = true ∧
    ∀ r ∈ (Run.complete g (nightlyRun g)).job.steps, r.status ≠ .skipped := by
  obtain ⟨g, hg, hover, hleaf, hfailed, hstatus⟩ := nightlyRun_over
  have hsteps : Steps { graph := g } .any (fresh g 0) (nightlyRun g) := timeline_steps 0 none
  obtain ⟨-, hverdict⟩ := verdict_of_leaves (p := { graph := g }) hg hsteps
  obtain ⟨hsuccess, -, -, hskipped⟩ := hverdict hover
  refine ⟨g, hg, hsteps, hover, hfailed, ?_, hskipped hstatus⟩
  by_contra hallow
  exact hsuccess.1 hstatus ⟨3, hleaf, .inl hfailed, by simpa using hallow⟩

end StepFlow.Walk
