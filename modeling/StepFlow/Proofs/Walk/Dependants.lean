import StepFlow.Proofs.Graph.Exits
import StepFlow.Proofs.Job.Agreement
import StepFlow.Proofs.Walk.Verdict

/-!
Steps that depend on a stage. The record of a stage tells of everything inside it, but who depends on
the stage waits for its exit only. So the failure of a stage reaches its dependants when a leaf that
made it fail leads out of the stage, as it does if the steps inside the stage depend on nothing by
name; a failure that does not lead out is not waited for.
-/

namespace StepFlow.Walk

section Dependants

variable {f : Flow} {p : WalkPlan} {driver : Driver} {now : Time} {past : List Walk} {w : Walk}
  {i k s : Nat}

/-! ### From the walk to the end of the job -/

/-- The end of the job changes nothing about who stands against its success. -/
lemma complete_blocks_iff (hg : f.compile = .ok p.graph)
    (h : Steps p driver (fresh p.graph now) w) (hover : Over w) :
    (Run.complete p.graph w).job.Blocks p.graph k ↔ w.data.job.Blocks p.graph k := by
  refine and_congr_right fun hk => ?_
  rw [complete_stepStatus hg h hover hk]

/-- A leaf that may not run is skipped, and at no moment it was being run. -/
lemma Course.skipped_of_dooms (hg : f.compile = .ok p.graph) (h : Course p driver now past w)
    (hover : Over w) (hi : p.graph.tree.isLeaf i = true) (hdoomed : w.data.job.Dooms p.graph i) :
    (Run.complete p.graph w).job.stepStatus p.graph i = some .skipped ∧
      ∀ v ∈ past, ∀ r ∈ v.running, r.node ≠ i := by
  obtain ⟨hplaced, hrecorded⟩ := steps_recorded hg h.steps
  have hskipped := (hrecorded.skipped_iff hg hplaced hover hi).2 hdoomed
  refine ⟨(complete_stepStatus hg h.steps hover hi).trans hskipped, ?_⟩
  rintro v hv r hr rfl
  obtain ⟨hbefore, hafter⟩ := h.between hv
  obtain ⟨t, ht, hran⟩ := not_skipped_of_running hg hbefore hafter (mem_runningNodes hr)
  cases hskipped.symm.trans ht
  rcases hran with hran | hran
  · cases hran
  · exact (tried_ne hran).2.2 rfl

/-- Inside a stage that failed there is a leaf that stands against the success of the job. -/
lemma exists_blocks_of_failed (hg : f.compile = .ok p.graph)
    (h : Steps p driver (fresh p.graph now) w) (hover : Over w)
    (hs : p.graph.tree.isStage s = true)
    (hfailed : (Run.complete p.graph w).job.stepStatus p.graph s = some .failure) :
    ∃ k, p.graph.tree.Inside s k ∧ w.data.job.Blocks p.graph k := by
  obtain ⟨hplaced, hrecorded⟩ := steps_recorded hg h
  have hkept := steps_kept hg h
  rw [complete_eq hg hplaced hover, Job.stepStatus,
    Run.close_step?_eq .success hrecorded.job rfl] at hfailed
  obtain ⟨k, hk, hleaf, hblocks⟩ := Run.exists_blocking_leaf hg hkept.labelled hs hfailed
  exact ⟨k, hk, (blocks_iff hg hkept.labelled).2 ⟨hleaf, hblocks⟩⟩

/-! ### Dependants -/

/-- **A step that depends on a stage that failed** is skipped, and was never run, if one of the leaves
that made the stage fail leads out of the stage. There is a leaf inside the stage that made it fail;
and it leads out if the steps inside the stage depend on nothing by name. -/
theorem dependant_of_failed_stage (hg : f.compile = .ok p.graph) (h : Course p driver now past w)
    (hover : Over w) (hi : p.graph.tree.isLeaf i = true) (hpost : p.graph.isPost i = false)
    (hs : p.graph.tree.isStage s = true) (hdep : p.graph.DependsOn i s)
    (hfailed : (Run.complete p.graph w).job.stepStatus p.graph s = some .failure) :
    (∃ k, p.graph.tree.Inside s k ∧ (Run.complete p.graph w).job.Blocks p.graph k) ∧
    ((∃ k, p.graph.tree.Inside s k ∧ (Run.complete p.graph w).job.Blocks p.graph k ∧
        p.graph.LeadsOut s k) ∨
      (∀ j, p.graph.tree.Inside s j → ∀ l, ¬ p.graph.DependsOn j l) →
      (Run.complete p.graph w).job.stepStatus p.graph i = some .skipped ∧
        ∀ v ∈ past, ∀ r ∈ v.running, r.node ≠ i) := by
  simp only [complete_blocks_iff hg h.steps hover]
  obtain ⟨k, hk, hblocks⟩ := exists_blocks_of_failed hg h.steps hover hs hfailed
  refine ⟨⟨k, hk, hblocks⟩, fun hout => h.skipped_of_dooms hg hover hi ⟨hpost, ?_⟩⟩
  have hstep := Graph.isStep_of_isLeaf hi
  rcases hout with ⟨l, -, hblocks', hleads⟩ | hnone
  · exact ⟨l, hblocks', Graph.before_of_leadsOut hg hstep hdep hleads⟩
  · have hleads := Graph.leadsOut_of_independent hg (Graph.isStep_of_isStage hs) hnone hk
    exact ⟨k, hblocks, Graph.before_of_leadsOut hg hstep hdep hleads⟩

end Dependants

/-! ### Documents that wait for checks -/

/-- Two checks inside a stage, the last of which waits for a step outside only, and a step that
depends on the stage. -/
def docs : Flow where
  steps :=
    [("lint", { spec := { bash := some "make lint" } }),
      ("checks", { steps :=
        [("unit", { spec := { bash := some "make test" } }),
          ("manual", { spec := { bash := some "make doc", dependencies := ["lint"] } })] }),
      ("publish", { spec := { bash := some "make dist", dependencies := ["checks"] } })]

/-- The run in which a step fails. -/
def docsRun (g : Graph) (name : String) : Walk :=
  (Timeline.run { graph := g } (failingAt name) 0 none).walk

lemma docsRun_unit : ∃ g, docs.compile = .ok g ∧ Over (docsRun g "unit") ∧
    g.tree.isLeaf 5 = true ∧ g.isPost 5 = false ∧ g.tree.isStage 2 = true ∧ g.DependsOn 5 2 ∧
    (Run.complete g (docsRun g "unit")).job.stepStatus g 2 = some .failure ∧
    g.allowsFailure 2 = false ∧
    (Run.complete g (docsRun g "unit")).job.stepStatus g 5 = some .success :=
  Graph.exists_compiled (by cbv)

lemma docsRun_manual : ∃ g, docs.compile = .ok g ∧ Over (docsRun g "manual") ∧
    g.tree.isLeaf 5 = true ∧ g.isPost 5 = false ∧ g.tree.isStage 2 = true ∧ g.DependsOn 5 2 ∧
    (Run.complete g (docsRun g "manual")).job.stepStatus g 2 = some .failure ∧
    g.tree.children 2 = [3, 4] ∧ g.tree.isLeaf 4 = true ∧ g.allowsFailure 4 = false ∧
    (Run.complete g (docsRun g "manual")).job.stepStatus g 4 = some .failure ∧ g.exitOf 2 = 4 :=
  Graph.exists_compiled (by cbv)

/-- The first check fails, and the step that depends on the checks is run all the same. -/
theorem dependant_runs_docs : ∃ g past w, docs.compile = .ok g ∧
    Course { graph := g } .any 0 past w ∧ Over w ∧ g.tree.isLeaf 5 = true ∧ g.isPost 5 = false ∧
    g.tree.isStage 2 = true ∧ g.DependsOn 5 2 ∧
    (Run.complete g w).job.stepStatus g 2 = some .failure ∧ g.allowsFailure 2 = false ∧
    (Run.complete g w).job.stepStatus g 5 = some .success := by
  obtain ⟨g, hg, hover, hrun⟩ := docsRun_unit
  obtain ⟨past, hpast⟩ := exists_course (timeline_steps (p := { graph := g }) 0 none)
  exact ⟨g, past, _, hg, hpast, hover, hrun⟩

/-- The last check fails. -/
theorem dependant_of_failed_stage_docs : ∃ g past w, docs.compile = .ok g ∧
    Course { graph := g } .any 0 past w ∧ Over w ∧ g.tree.isLeaf 5 = true ∧ g.isPost 5 = false ∧
    g.tree.isStage 2 = true ∧ g.DependsOn 5 2 ∧
    (Run.complete g w).job.stepStatus g 2 = some .failure ∧
    (Run.complete g w).job.stepStatus g 5 = some .skipped ∧
    ∀ v ∈ past, ∀ r ∈ v.running, r.node ≠ 5 := by
  obtain ⟨g, hg, hover, hleaf, hpost, hstage, hdep, hfailed, hinside, hlast, hallow, hlast_failed,
    hexit⟩ := docsRun_manual
  obtain ⟨past, hpast⟩ := exists_course (timeline_steps (p := { graph := g }) 0 none)
  obtain ⟨-, hskipped⟩ := dependant_of_failed_stage (p := { graph := g }) hg hpast hover hleaf hpost
    hstage hdep hfailed
  exact ⟨g, past, _, hg, hpast, hover, hleaf, hpost, hstage, hdep, hfailed, hskipped (.inl
    ⟨4, .of_mem_children (by simp [hinside]), ⟨hlast, .inl hlast_failed, hallow⟩, .inl hexit.symm⟩)⟩

end StepFlow.Walk
