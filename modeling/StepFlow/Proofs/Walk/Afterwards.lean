import StepFlow.Proofs.Job.Agreement
import StepFlow.Proofs.Walk.LeftBehind
import StepFlow.Proofs.Walk.Verdict

/-!
After the walk. A job ends when its walk is over, or at whatever moment its time limit strikes. Either
way the leaves left behind are brought to an end, the stages follow, and the job is closed; so the
records and the events of a job that ended are known from the last moment of its walk. A stage is told
of only when the walk skips it.
-/

namespace StepFlow.Walk

open Lifecycle (Data)

/-! ### What is told of stages -/

/-- What is known of the steps that events are about, at every moment of a walk. -/
structure Heard (p : WalkPlan) (w : Walk) : Prop where
  started : ∀ name path, .stepStarted name path ∈ w.data.events →
    ∃ i, p.graph.tree.isLeaf i = true ∧ p.graph.name i = name
  skipped : ∀ i, p.graph.tree.isStage i = true →
    ((∃ reason, .stepSkipped (p.graph.name i) reason ∈ w.data.events) ↔
      w.data.job.stepStatus p.graph i = some .skipped)

section Heard

variable {f : Flow} {p : WalkPlan} {driver : Driver} {now : Time} {w w' : Walk} {i k : Nat}

theorem heard_fresh (hg : f.compile = .ok p.graph) (now : Time) : Heard p (fresh p.graph now) := by
  refine ⟨fun name path hmem => ?_, fun i hi => iff_of_false ?_ ?_⟩
  · cases List.mem_singleton.1 hmem
  · rintro ⟨reason, hmem⟩
    cases List.mem_singleton.1 hmem
  · show (Job.ofGraph p.graph).stepStatus p.graph i ≠ some .skipped
    rw [Job.stepStatus_ofGraph hg (Graph.isStep_of_isStage hi)]
    simp

/-- Only of a leaf it may be told next that it starts. -/
lemma Heard.started_concat (h : Heard p w) {e : Event}
    (hevents : w'.data.events = w.data.events ++ [e])
    (he : ∀ name path, e = .stepStarted name path →
      ∃ i, p.graph.tree.isLeaf i = true ∧ p.graph.name i = name) :
    ∀ name path, .stepStarted name path ∈ w'.data.events →
      ∃ i, p.graph.tree.isLeaf i = true ∧ p.graph.name i = name := by
  intro name path hmem
  rw [hevents] at hmem
  rcases List.mem_append.1 hmem with hmem | hmem
  · exact h.started name path hmem
  · exact he name path (List.mem_singleton.1 hmem).symm

/-- Something is told of another step, and the record of that step is changed. -/
lemma Heard.other (hg : f.compile = .ok p.graph) (h : Heard p w)
    (hi : p.graph.tree.isStage i = true) (hk : p.graph.tree.isStep k = true) (hik : i ≠ k)
    {change : StepRecord → StepRecord} (hname : ∀ r, (change r).name = r.name)
    (hjob : w'.data.job = w.data.job.updateNode p.graph k change) {e : Event}
    (he : e.step? = some (p.graph.name k)) (hevents : w'.data.events = w.data.events ++ [e]) :
    (∃ reason, .stepSkipped (p.graph.name i) reason ∈ w'.data.events) ↔
      w'.data.job.stepStatus p.graph i = some .skipped := by
  have hstage := Graph.isStep_of_isStage hi
  have hne : ∀ reason, .stepSkipped (p.graph.name i) reason ≠ e := by
    rintro reason rfl
    exact hik ((Graph.compile_name_inj hg hstage hk).1 (Option.some.inj he))
  rw [hjob, Job.stepStatus_updateNode_of_ne hg hstage hk hname hik, hevents, ← h.skipped i hi]
  simp [hne]

theorem Heard.step (hg : f.compile = .ok p.graph) (hplaced : Placed p w)
    (hrecorded : Recorded p w) (hkept : Kept p w) (h : Heard p w) (hstep : Step p driver w w') :
    Heard p w' := by
  rcases hstep.data_cases hplaced with
    ⟨hjob, hevents⟩ | ⟨k, change, e, hk, hlabel, hjob, he, hevents⟩ | ⟨k, hk, hjob, hevents⟩
  · refine ⟨?_, ?_⟩
    · rw [hevents]
      exact h.started
    · rw [hevents, hjob]
      exact h.skipped
  · -- something is told of a leaf, and so of no stage
    refine ⟨h.started_concat hevents ?_, fun i hi => ?_⟩
    · rintro name path rfl
      exact ⟨k, hk, (Option.some.inj he).symm⟩
    · have hik : i ≠ k := by
        rintro rfl
        exact Graph.not_isStage_of_isLeaf hk hi
      exact h.other hg hi (Graph.isStep_of_isLeaf hk) hik (fun r => congrArg Prod.fst (hlabel r))
        hjob he hevents
  · -- what is skipped is a leaf or a stage
    have hk_step := hrecorded.isStep_of_doomed hg hk
    refine ⟨h.started_concat hevents (fun name path heq => nomatch heq), fun i hi => ?_⟩
    by_cases hik : i = k
    · subst hik
      refine iff_of_true ⟨failedBefore, by simp [hevents]⟩ ?_
      rw [hjob]
      exact Job.stepStatus_updateNode_self hg hk_step
        (fun r => StepRecord.skip_name w.data.now r failedBefore)
        (fun r => StepRecord.skip_status w.data.now r failedBefore)
        (hkept.labelled.status_ne_none hg hk_step)
    · exact h.other hg hi hk_step hik
        (fun r => StepRecord.skip_name w.data.now r failedBefore) hjob rfl hevents

/-- **Every walk reached** from the walk of a new job has told that leaves start, and of its stages
that the walk skipped them. -/
theorem steps_heard (hg : f.compile = .ok p.graph) (h : Steps p driver (fresh p.graph now) w) :
    Heard p w := by
  induction h with
  | refl => exact heard_fresh hg now
  | tail hsteps hstep ih =>
    obtain ⟨hplaced, hrecorded⟩ := steps_recorded hg hsteps
    exact ih.step hg hplaced hrecorded (steps_kept hg hsteps) hstep

end Heard

/-! ### The end of a job -/

/-- How a job ends: when its walk is over, or at the moment at which its time limit strikes. -/
inductive Ended (p : WalkPlan) (w : Walk) : Data → Prop
  | complete (hover : Over w) : Ended p w (Run.complete p.graph w)
  | cutShort : Ended p w (Run.cutShort p.graph w)

/-- **A job in time** ends in one of these ways. -/
theorem timeline_ended {p : WalkPlan} {agent : Agent} (start : Time) (limit : Option UInt64) :
    Ended p (Timeline.run p agent start limit).walk
      (Timeline.finish p (Timeline.run p agent start limit)) := by
  unfold Timeline.finish
  split
  case isTrue hover => exact .complete ((timeline_waits start limit).2.over hover)
  case isFalse => exact .cutShort

section Ended

variable {f : Flow} {p : WalkPlan} {driver : Driver} {now : Time} {w : Walk} {d : Data} {i : Nat}

/-- However a job ends, its leaves are brought to an end, and it is closed. -/
lemma Ended.closing (hg : f.compile = .ok p.graph) (h : Steps p driver (fresh p.graph now) w)
    (hend : Ended p w d) : ∃ target d', Lifecycle.leads .running target = true ∧
      d'.job.status = .running ∧ d = Run.close p.graph target d' ∧
      Run.Abandoned p.graph .timeout Run.jobTimedOut
        ((List.range p.graph.size).filter p.graph.tree.isLeaf) w.data d' := by
  obtain ⟨hplaced, hrecorded⟩ := steps_recorded hg h
  cases hend with
  | complete hover =>
    -- all leaves are over, so none is left behind
    refine ⟨.success, w.data, rfl, hrecorded.job, complete_eq hg hplaced hover,
      Run.abandoned_of_over fun i hi r hr => ?_⟩
    obtain ⟨s, hs, hwhere⟩ := hrecorded.ended hg hplaced hover (List.mem_filter.1 hi).2
    cases hs.symm.trans (Job.stepStatus_eq_some hr)
    rcases hwhere with ⟨hskipped, -⟩ | ⟨htried, -⟩
    · rw [hskipped]
      rfl
    · rcases htried with hs | hs | hs <;> rw [hs] <;> rfl
  | cutShort =>
    have hleft := Run.abandoned_abandon hg .timeout Run.jobTimedOut w.data
    exact ⟨.timeout, _, rfl, hleft.job.trans hrecorded.job, rfl, hleft⟩

/-- What becomes of the record of a leaf. -/
lemma Ended.leaf (hg : f.compile = .ok p.graph) (h : Steps p driver (fresh p.graph now) w)
    (hend : Ended p w d) (hi : p.graph.tree.isLeaf i = true) : d.job.step? (p.graph.name i) =
      (w.data.job.step? (p.graph.name i)).map
        (Run.abandonRecord w.data.now .timeout Run.jobTimedOut) := by
  obtain ⟨target, d', htarget, hjob, rfl, hleft⟩ := hend.closing hg h
  exact hleft.close_step? hg hjob htarget hi

/-- What is told of a leaf. -/
lemma Ended.told (hg : f.compile = .ok p.graph) (h : Steps p driver (fresh p.graph now) w)
    (hend : Ended p w d) (hi : p.graph.tree.isLeaf i = true) :
    told d.events (p.graph.name i) = told w.data.events (p.graph.name i) ++
      if w.data.job.stepStatus p.graph i = some .pending then
        [.stepSkipped (p.graph.name i) Run.jobTimedOut] else [] := by
  obtain ⟨target, d', htarget, hjob, rfl, hleft⟩ := hend.closing hg h
  exact hleft.close_told hg hjob htarget hi

/-- What is told at the end: that leaves are skipped, and that the job is over. -/
lemma Ended.events (hg : f.compile = .ok p.graph) (h : Steps p driver (fresh p.graph now) w)
    (hend : Ended p w d) : ∃ skips status, d.events = w.data.events ++ skips ++ [.jobFinished status] ∧
      ∀ e ∈ skips, ∃ k, p.graph.tree.isLeaf k = true ∧
        e = .stepSkipped (p.graph.name k) Run.jobTimedOut := by
  obtain ⟨target, d', htarget, hjob, rfl, hleft⟩ := hend.closing hg h
  obtain ⟨skips, hevents, hskips⟩ := hleft.events
  refine ⟨skips, _, by rw [(Run.close_running target hjob htarget).2.2, hevents], fun e he => ?_⟩
  obtain ⟨k, hk, rfl⟩ := hskips e he
  exact ⟨k, (List.mem_filter.1 hk).2, rfl⟩

/-- A leaf that is over keeps its status. -/
lemma Ended.status_of_over (hg : f.compile = .ok p.graph)
    (h : Steps p driver (fresh p.graph now) w) (hend : Ended p w d)
    (hi : p.graph.tree.isLeaf i = true) {s : StepStatus}
    (hs : w.data.job.stepStatus p.graph i = some s) (hover : s.isTerminal = true) :
    d.job.stepStatus p.graph i = some s := by
  obtain ⟨r, hr, rfl⟩ := Option.map_eq_some_iff.1 hs
  rw [Job.stepStatus, hend.leaf hg h hi, hr, Option.map_some, Run.abandonRecord_over _ hover]
  rfl

/-- A leaf that is being run when the job ends times out. -/
lemma Ended.status_of_running (hg : f.compile = .ok p.graph)
    (h : Steps p driver (fresh p.graph now) w) (hend : Ended p w d) (hi : i ∈ w.runningNodes) :
    d.job.stepStatus p.graph i = some .timeout := by
  obtain ⟨hplaced, hrecorded⟩ := steps_recorded hg h
  have hleaf := hplaced.leaf i (List.mem_append_right _ hi)
  obtain ⟨r, hr, hs⟩ := Option.map_eq_some_iff.1 (hrecorded.status_of_running hplaced hi)
  rw [Job.stepStatus, hend.leaf hg h hleaf, hr, Option.map_some, Run.abandonRecord_running _ hs]
  rfl

/-- **A stage that the walk skipped** stays so; every other stage agrees with the steps right inside
it. -/
theorem Ended.stage (hg : f.compile = .ok p.graph) (h : Steps p driver (fresh p.graph now) w)
    (hend : Ended p w d) (hi : p.graph.tree.isStage i = true) :
    (w.data.job.stepStatus p.graph i = some .skipped →
      d.job.stepStatus p.graph i = some .skipped) ∧
    (w.data.job.stepStatus p.graph i ≠ some .skipped → d.job.Agrees p.graph i) := by
  obtain ⟨target, d', htarget, hjob, rfl, hleft⟩ := hend.closing hg h
  have hlabelled : Job.Labelled p.graph d'.job := hleft.labels.trans (steps_kept hg h).labelled
  have hsettled := Run.close_step?_eq (g := p.graph) target hjob htarget
  have hnot : i ∉ (List.range p.graph.size).filter p.graph.tree.isLeaf := fun hmem =>
    Graph.not_isStage_of_isLeaf (List.mem_filter.1 hmem).2 hi
  have hsame : d'.job.stepStatus p.graph i = w.data.job.stepStatus p.graph i := by
    rw [Job.stepStatus, hleft.record i (Graph.isStep_of_isStage hi), if_neg hnot, Job.stepStatus]
  rw [← hsame]
  refine ⟨fun hskipped => ?_, fun hskipped => ?_⟩
  · rw [Job.stepStatus, hsettled]
    exact Run.settled_skipped hg hlabelled hi hskipped
  · exact (Run.settled_agrees hg hlabelled hi hskipped).of_step?_eq hsettled

end Ended

end StepFlow.Walk
