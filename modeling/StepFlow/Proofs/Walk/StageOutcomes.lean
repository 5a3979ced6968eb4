import StepFlow.Proofs.Walk.Afterwards

/-!
The outcomes of stages. In the end of a job each stage agrees with the steps right inside it, except a
stage that the walk itself skipped: that one stays as it is, although steps inside it that are to be
run whatever happened were run. The walk skips no such step itself, be it a leaf or a stage, but such a
stage is skipped all the same when all steps right inside it are.
-/

namespace StepFlow.Walk

open Lifecycle (Data)

section StageOutcomes

variable {f : Flow} {p : WalkPlan} {driver : Driver} {now : Time} {w : Walk} {d : Data} {i : Nat}

/-! ### Stages and the steps inside them -/

/-- A node that may not run because of what the walk has recorded may not run because of what is
recorded in the end. -/
lemma Ended.dooms (hg : f.compile = .ok p.graph) (h : Steps p driver (fresh p.graph now) w)
    (hend : Ended p w d) (hdooms : w.data.job.Dooms p.graph i) : d.job.Dooms p.graph i := by
  obtain ⟨hpost, k, ⟨hk, hfailed, hallow⟩, hbefore⟩ := hdooms
  refine ⟨hpost, k, ⟨hk, ?_, hallow⟩, hbefore⟩
  rcases hfailed with hs | hs
  · exact .inl (hend.status_of_over hg h hk hs rfl)
  · exact .inr (hend.status_of_over hg h hk hs rfl)

/-- It is told in the end that a stage is skipped just when the walk skipped it. -/
lemma Ended.skipped_iff (hg : f.compile = .ok p.graph) (h : Steps p driver (fresh p.graph now) w)
    (hend : Ended p w d) (hi : p.graph.tree.isStage i = true) :
    (∃ reason, .stepSkipped (p.graph.name i) reason ∈ d.events) ↔
      w.data.job.stepStatus p.graph i = some .skipped := by
  obtain ⟨skips, status, hevents, hskips⟩ := hend.events hg h
  rw [← (steps_heard hg h).skipped i hi, hevents]
  refine exists_congr fun reason => ?_
  have hnot : .stepSkipped (p.graph.name i) reason ∉ skips := by
    intro hmem
    obtain ⟨k, hk, heq⟩ := hskips _ hmem
    rw [Event.stepSkipped.injEq] at heq
    obtain rfl := (Graph.compile_name_inj hg (Graph.isStep_of_isStage hi)
      (Graph.isStep_of_isLeaf hk)).1 heq.1
    exact Graph.not_isStage_of_isLeaf hk hi
  simp [hnot]

/-- **How the stages end**, whatever way the job ends. A stage of which it is told that it is skipped
is skipped, and it may not run because of a leaf before it; every other stage agrees with the steps
right inside it. -/
theorem stage_agrees_unless_skipped (hg : f.compile = .ok p.graph)
    (h : Steps p driver (fresh p.graph now) w) (hend : Ended p w d)
    (hi : p.graph.tree.isStage i = true) :
    ((∃ reason, .stepSkipped (p.graph.name i) reason ∈ d.events) →
      d.job.stepStatus p.graph i = some .skipped ∧ d.job.Dooms p.graph i) ∧
    ((∀ reason, .stepSkipped (p.graph.name i) reason ∉ d.events) → d.job.Agrees p.graph i) := by
  obtain ⟨hstays, hagrees⟩ := hend.stage hg h hi
  rw [← not_exists, hend.skipped_iff hg h hi]
  refine ⟨fun hskipped => ⟨hstays hskipped, hend.dooms hg h ?_⟩, hagrees⟩
  exact (steps_kept hg h).dooms_of_skipped (steps_recorded hg h).2 hi hskipped

/-! ### Steps to be run whatever happened -/

/-- A leaf that is to be run whatever happened was tried when the walk is over. -/
lemma tried_of_post (hg : f.compile = .ok p.graph) (h : Steps p driver (fresh p.graph now) w)
    (hover : Over w) (hi : p.graph.tree.isLeaf i = true) (hpost : p.graph.isPost i = true) :
    ∃ s, (Run.complete p.graph w).job.stepStatus p.graph i = some s ∧ s.Tried := by
  obtain ⟨hplaced, hrecorded⟩ := steps_recorded hg h
  obtain ⟨s, hs, hwhere⟩ := hrecorded.ended hg hplaced hover hi
  refine ⟨s, (complete_stepStatus hg h hover hi).trans hs, ?_⟩
  rcases hwhere with ⟨-, hdoomed⟩ | ⟨htried, -⟩
  · have hnot := ((hrecorded.doomed i).1 hdoomed).1
    rw [hpost] at hnot
    cases hnot
  · exact htried

/-- A stage that is to be run whatever happened agrees with the steps right inside it. -/
lemma Ended.agrees_of_post (hg : f.compile = .ok p.graph)
    (h : Steps p driver (fresh p.graph now) w) (hend : Ended p w d)
    (hi : p.graph.tree.isStage i = true) (hpost : p.graph.isPost i = true) :
    d.job.Agrees p.graph i := by
  refine (hend.stage hg h hi).2 fun hskipped => ?_
  have hnot := ((steps_kept hg h).dooms_of_skipped (steps_recorded hg h).2 hi hskipped).1
  rw [hpost] at hnot
  cases hnot

/-- **When a step is skipped that is to be run whatever happened**: when it is a stage, and all steps
right inside it are skipped. If it is a leaf it was tried; and it is not skipped if all that is inside
it is to be run whatever happened as well. -/
theorem post_skipped_iff (hg : f.compile = .ok p.graph) (h : Steps p driver (fresh p.graph now) w)
    (hover : Over w) (hi : p.graph.tree.isStep i = true) (hpost : p.graph.isPost i = true) :
    ((Run.complete p.graph w).job.stepStatus p.graph i = some .skipped ↔
      p.graph.tree.isStage i = true ∧ ∀ c ∈ p.graph.tree.children i,
        (Run.complete p.graph w).job.stepStatus p.graph c = some .skipped) ∧
    (p.graph.tree.isLeaf i = true →
      ∃ s, (Run.complete p.graph w).job.stepStatus p.graph i = some s ∧ s.Tried) ∧
    ((∀ j, p.graph.tree.Inside i j → p.graph.isPost j = true) →
      (Run.complete p.graph w).job.stepStatus p.graph i ≠ some .skipped) := by
  obtain ⟨ht, -⟩ := Graph.compile_eq_ok hg
  have hskipped : ∀ i, p.graph.tree.isStep i = true → p.graph.isPost i = true →
      ((Run.complete p.graph w).job.stepStatus p.graph i = some .skipped ↔
        p.graph.tree.isStage i = true ∧ ∀ c ∈ p.graph.tree.children i,
          (Run.complete p.graph w).job.stepStatus p.graph c = some .skipped) := by
    intro i hi hpost
    rcases Graph.isLeaf_or_isStage hi with hleaf | hstage
    · obtain ⟨s, hs, htried⟩ := tried_of_post hg h hover hleaf hpost
      rw [hs, Option.some.injEq]
      exact iff_of_false (tried_ne htried).2.2 fun hstage =>
        Graph.not_isStage_of_isLeaf hleaf hstage.1
    · rw [((Ended.complete hover).agrees_of_post hg h hstage hpost).skipped, and_iff_right hstage]
  refine ⟨hskipped i hi hpost, fun hleaf => tried_of_post hg h hover hleaf hpost, ?_⟩
  refine Tree.inside_out ht (P := fun i => p.graph.isPost i = true →
    (∀ j, p.graph.tree.Inside i j → p.graph.isPost j = true) →
      (Run.complete p.graph w).job.stepStatus p.graph i ≠ some .skipped) ?_ hi hpost
  intro i hi ih hpost hinside hstatus
  obtain ⟨hstage, hall⟩ := (hskipped i hi hpost).1 hstatus
  have hne : p.graph.tree.children i ≠ [] := by simpa [Tree.isStage, hi] using hstage
  obtain ⟨c, hc⟩ := List.exists_mem_of_ne_nil _ hne
  exact ih c hc (hinside c (.of_mem_children hc))
    (fun j hj => hinside j (.of_child hc (.inr hj))) (hall c hc)

end StageOutcomes

/-! ### A rollout that is not built -/

/-- A step, a stage behind it whose last step is to be run whatever happened, and a stage that is to
be run whatever happened. -/
def rollout : Flow where
  steps :=
    [("build", { spec := { bash := some "make" } }),
      ("deploy", { steps :=
        [("ship", { spec := { bash := some "make ship" } }),
          ("report", { spec := { bash := some "make report", post := some true } })] }),
      ("cleanup", { spec := { post := some true }, steps :=
        [("logs", { spec := { bash := some "make logs" } })] })]

/-- The run in which the first step fails. -/
def rolloutRun (g : Graph) : Walk :=
  (Timeline.run { graph := g } (failingAt "build") 0 none).walk

lemma rolloutRun_over : ∃ g, rollout.compile = .ok g ∧ Over (rolloutRun g) ∧
    g.tree.isStage 2 = true ∧ g.tree.children 2 = [3, 4] ∧
    (Run.complete g (rolloutRun g)).job.stepStatus g 2 = some .skipped ∧
    told (Run.complete g (rolloutRun g)).events (g.name 2) =
      [.stepSkipped (g.name 2) failedBefore] ∧
    g.tree.isLeaf 4 = true ∧ g.isPost 4 = true ∧
    (Run.complete g (rolloutRun g)).job.stepStatus g 4 = some .success ∧
    g.tree.isStage 5 = true ∧ g.isPost 5 = true ∧
    (Run.complete g (rolloutRun g)).job.stepStatus g 5 = some .skipped ∧
    told (Run.complete g (rolloutRun g)).events (g.name 5) = [] :=
  Graph.exists_compiled (by cbv)

/-- The stage behind the step that fails is skipped, and the report inside it is made. -/
theorem skipped_stage_disagrees_rollout : ∃ g, rollout.compile = .ok g ∧
    Steps { graph := g } .any (fresh g 0) (rolloutRun g) ∧
    Ended { graph := g } (rolloutRun g) (Run.complete g (rolloutRun g)) ∧
    g.tree.isStage 2 = true ∧ ¬ (Run.complete g (rolloutRun g)).job.Agrees g 2 := by
  obtain ⟨g, hg, hover, hstage, hinside, hskipped, -, -, -, hsuccess, -⟩ := rolloutRun_over
  refine ⟨g, hg, timeline_steps 0 none, .complete hover, hstage, fun hagrees => ?_⟩
  have hreport := hagrees.skipped.1 hskipped 4 (by simp [hinside])
  cases hsuccess.symm.trans hreport

/-- The stage behind the step that fails is skipped by the walk, and the last stage is not. -/
theorem stage_agrees_unless_skipped_rollout : ∃ g, rollout.compile = .ok g ∧
    Steps { graph := g } .any (fresh g 0) (rolloutRun g) ∧
    Ended { graph := g } (rolloutRun g) (Run.complete g (rolloutRun g)) ∧
    g.tree.isStage 2 = true ∧ (Run.complete g (rolloutRun g)).job.Dooms g 2 ∧
    g.tree.isStage 5 = true ∧ (Run.complete g (rolloutRun g)).job.Agrees g 5 := by
  obtain ⟨g, hg, hover, hstage, -, -, htold, -, -, -, hlast, -, -, hnone⟩ := rolloutRun_over
  have hsteps : Steps { graph := g } .any (fresh g 0) (rolloutRun g) := timeline_steps 0 none
  have hend : Ended { graph := g } (rolloutRun g) _ := .complete hover
  obtain ⟨hskipped, -⟩ := stage_agrees_unless_skipped (p := { graph := g }) hg hsteps hend hstage
  obtain ⟨-, hagrees⟩ := stage_agrees_unless_skipped (p := { graph := g }) hg hsteps hend hlast
  refine ⟨g, hg, hsteps, hend, hstage, (hskipped ⟨failedBefore, ?_⟩).2, hlast, hagrees ?_⟩
  · exact (mem_told.1 (htold ▸ List.mem_singleton_self _)).1
  · intro reason hmem
    have hmem' := mem_told.2 ⟨hmem, rfl⟩
    rw [hnone] at hmem'
    cases hmem'

/-- The last stage is to be run whatever happened, and is skipped as the step inside it is. -/
theorem post_stage_skipped_rollout : ∃ g, rollout.compile = .ok g ∧
    Steps { graph := g } .any (fresh g 0) (rolloutRun g) ∧ Over (rolloutRun g) ∧
    g.tree.isStep 5 = true ∧ g.isPost 5 = true ∧
    (Run.complete g (rolloutRun g)).job.stepStatus g 5 = some .skipped := by
  obtain ⟨g, hg, hover, -, -, -, -, -, -, -, hstage, hpost, hskipped, -⟩ := rolloutRun_over
  exact ⟨g, hg, timeline_steps 0 none, hover, Graph.isStep_of_isStage hstage, hpost, hskipped⟩

theorem post_skipped_iff_rollout : ∃ g, rollout.compile = .ok g ∧
    Steps { graph := g } .any (fresh g 0) (rolloutRun g) ∧ Over (rolloutRun g) ∧
    g.isPost 5 = true ∧ (∀ c ∈ g.tree.children 5,
      (Run.complete g (rolloutRun g)).job.stepStatus g c = some .skipped) ∧
    g.isPost 4 = true ∧ ∃ s, (Run.complete g (rolloutRun g)).job.stepStatus g 4 = some s ∧
      s.Tried := by
  obtain ⟨g, hg, hover, -, -, -, -, hleaf, hpost, -, hstage, hpost', hskipped, -⟩ := rolloutRun_over
  have hsteps : Steps { graph := g } .any (fresh g 0) (rolloutRun g) := timeline_steps 0 none
  obtain ⟨hiff, -⟩ := post_skipped_iff (p := { graph := g }) hg hsteps hover
    (Graph.isStep_of_isStage hstage) hpost'
  obtain ⟨-, htried, -⟩ := post_skipped_iff (p := { graph := g }) hg hsteps hover
    (Graph.isStep_of_isLeaf hleaf) hpost
  exact ⟨g, hg, hsteps, hover, hpost', (hiff.1 hskipped).2, hpost, htried hleaf⟩

end StepFlow.Walk
