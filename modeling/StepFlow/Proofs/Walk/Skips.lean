import StepFlow.Proofs.Walk.Statuses

/-!
Which leaves a job skips. When the walk of a job is over, just those leaves were skipped that come
after a failure that is not allowed and are not to be run whatever happened; all other leaves were
run, and nothing else was.
-/

namespace StepFlow.Walk

section Skips

variable {f : Flow} {p : WalkPlan} {driver : Driver} {now : Time} {past : List Walk} {w v : Walk}
  {i : Nat}

/-! ### The end of a job -/

/-- A walk that is over has reached all nodes, so the job is closed as it is. -/
lemma complete_eq (hg : f.compile = .ok p.graph) (hplaced : Placed p w) (hover : Over w) :
    Run.complete p.graph w = Run.close p.graph .success w.data := by
  rw [Run.complete, if_pos (hplaced.all_settled (Graph.compile_sound hg) hover).2]

/-- Closing the job leaves the statuses of the leaves alone. -/
lemma complete_stepStatus (hg : f.compile = .ok p.graph) (hsteps : Steps p driver (fresh p.graph now) w)
    (hover : Over w) (hi : p.graph.tree.isLeaf i = true) :
    (Run.complete p.graph w).job.stepStatus p.graph i = w.data.job.stepStatus p.graph i := by
  obtain ⟨hplaced, hrecorded⟩ := steps_recorded hg hsteps
  rw [complete_eq hg hplaced hover, Job.stepStatus,
    (Run.close_success hg hrecorded.job).2 i hi]
  rfl

/-! ### Who was run -/

/-- A leaf that is being run is run to its end, and not skipped. -/
lemma not_skipped_of_running (hg : f.compile = .ok p.graph)
    (hv : Steps p driver (fresh p.graph now) v) (hsteps : Steps p driver v w)
    (hi : i ∈ v.runningNodes) : ∃ s, w.data.job.stepStatus p.graph i = some s ∧
      (s = .running ∨ s.Tried) := by
  obtain ⟨hplaced, hrecorded⟩ := steps_recorded hg hv
  have hleaf := hplaced.leaf i (List.mem_append_right _ hi)
  induction hsteps with
  | refl => exact ⟨_, hrecorded.status_of_running hplaced hi, .inl rfl⟩
  | @tail u u' hu hstep ih =>
    obtain ⟨hplacedu, hrecordedu⟩ := steps_recorded hg (hv.trans hu)
    obtain ⟨s, hs, hran⟩ := ih
    obtain ⟨t, t', ht, ht', hmoves⟩ := hrecordedu.moves hg hplacedu hstep hleaf
    cases ht.symm.trans hs
    refine ⟨t', ht', ?_⟩
    cases hmoves with
    | stay => exact hran
    | start => exact .inl rfl
    | skip =>
      rcases hran with hran | hran
      · cases hran
      · exact absurd rfl (tried_ne hran).1
    | finish htried => exact .inr htried

/-- A leaf whose status is neither that of a leaf to come nor that of a skipped one was run. -/
lemma Course.was_run (hg : f.compile = .ok p.graph) (h : Course p driver now past w)
    (hi : p.graph.tree.isLeaf i = true) {s : StepStatus}
    (hs : w.data.job.stepStatus p.graph i = some s) (hpending : s ≠ .pending)
    (hskipped : s ≠ .skipped) : ∃ v, (v ∈ past ∨ v = w) ∧ i ∈ v.runningNodes := by
  -- the moment at which the status became that of a running leaf is looked for backwards
  induction h generalizing s with
  | start =>
    have hfresh := Job.stepStatus_ofGraph hg (Graph.isStep_of_isLeaf hi)
    cases hs.symm.trans hfresh
    exact absurd rfl hpending
  | @step past u u' hu hstep ih =>
    obtain ⟨hplaced, hrecorded⟩ := steps_recorded hg hu.steps
    obtain ⟨t, t', ht, ht', hmoves⟩ := hrecorded.moves hg hplaced hstep hi
    cases ht'.symm.trans hs
    have hbefore : t ≠ .pending → t ≠ .skipped →
        ∃ v, (v ∈ u :: past ∨ v = u') ∧ i ∈ v.runningNodes := by
      intro hp hk
      obtain ⟨v, hv, hmem⟩ := ih ht hp hk
      refine ⟨v, .inl ?_, hmem⟩
      rcases hv with hv | rfl
      · exact List.mem_cons_of_mem _ hv
      · exact List.mem_cons_self
    cases hmoves with
    | stay => exact hbefore hpending hskipped
    | skip => exact absurd rfl hskipped
    | finish htried => exact hbefore (by simp) (by simp)
    | start =>
      have hrecorded' := hrecorded.step hg hplaced hstep
      obtain ⟨s', hs', hfits⟩ := hrecorded'.fits i hi
      cases hs'.symm.trans ht'
      exact ⟨u', .inr rfl, hfits⟩

/-- When the walk is over, a leaf was skipped if it is doomed, and tried if not. -/
lemma Recorded.ended (hg : f.compile = .ok p.graph) (hplaced : Placed p w) (h : Recorded p w)
    (hover : Over w) (hi : p.graph.tree.isLeaf i = true) : ∃ s,
      w.data.job.stepStatus p.graph i = some s ∧
        (s = .skipped ∧ i ∈ w.doomed ∨ s.Tried ∧ i ∉ w.doomed) := by
  have hlt := ((Graph.compile_isStep_iff hg).1 (Graph.isStep_of_isLeaf hi)).2
  have hsettled := (hplaced.all_settled (Graph.compile_sound hg) hover).1 i hlt
  obtain ⟨s, hs, hfits⟩ := h.fits i hi
  refine ⟨s, hs, ?_⟩
  cases s with
  | pending => exact absurd hsettled hfits.1
  | running =>
    rw [Fits, runningNodes, hover.running] at hfits
    cases hfits
  | skipped => exact .inl ⟨rfl, hfits.2⟩
  | success => exact .inr ⟨.inl rfl, hfits.2⟩
  | failure => exact .inr ⟨.inr (.inl rfl), hfits.2⟩
  | timeout => exact .inr ⟨.inr (.inr rfl), hfits.2⟩

/-- When the walk is over, just the doomed leaves were skipped. -/
lemma Recorded.skipped_iff (hg : f.compile = .ok p.graph) (hplaced : Placed p w)
    (h : Recorded p w) (hover : Over w) (hi : p.graph.tree.isLeaf i = true) :
    w.data.job.stepStatus p.graph i = some .skipped ↔ w.data.job.Dooms p.graph i := by
  obtain ⟨s, hs, hwhere⟩ := h.ended hg hplaced hover hi
  rw [hs, Option.some.injEq, ← h.doomed i]
  rcases hwhere with ⟨hskipped, hdoomed⟩ | ⟨htried, hdoomed⟩
  · exact iff_of_true hskipped hdoomed
  · exact iff_of_false (tried_ne htried).2.2 hdoomed

/-- **Which leaves a job skips**, runs, and hands to the driver: when the walk is over, a leaf is
skipped just when it is not to be run whatever happened and a leaf before it ended in failure or
timeout without leave to do so; all other leaves were run to their end; and only leaves that were
not skipped were ever being run. -/
theorem skipped_iff_and_run (hg : f.compile = .ok p.graph) (h : Course p driver now past w)
    (hover : Over w) :
    (∀ i, p.graph.tree.isLeaf i = true →
      ((Run.complete p.graph w).job.stepStatus p.graph i = some .skipped ↔
        p.graph.isPost i = false ∧ ∃ k, p.graph.tree.isLeaf k = true ∧
          ((Run.complete p.graph w).job.stepStatus p.graph k = some .failure ∨
            (Run.complete p.graph w).job.stepStatus p.graph k = some .timeout) ∧
          p.graph.allowsFailure k = false ∧ p.graph.Before k i) ∧
      ((Run.complete p.graph w).job.stepStatus p.graph i ≠ some .skipped →
        (∃ v ∈ past, ∃ r ∈ v.running, r.node = i) ∧
        ∃ s, (Run.complete p.graph w).job.stepStatus p.graph i = some s ∧
          (s = .success ∨ s = .failure ∨ s = .timeout))) ∧
    ∀ v ∈ past, ∀ r ∈ v.running, p.graph.tree.isLeaf r.node = true ∧
      (Run.complete p.graph w).job.stepStatus p.graph r.node ≠ some .skipped ∧
      p.graph.tree.resolve? r.node p.defaults = some r.step := by
  obtain ⟨hplaced, hrecorded⟩ := steps_recorded hg h.steps
  have hrunning : w.runningNodes = [] := by simp [runningNodes, hover.running]
  have hstatus : ∀ i, p.graph.tree.isLeaf i = true →
      (Run.complete p.graph w).job.stepStatus p.graph i = w.data.job.stepStatus p.graph i :=
    fun i hi => complete_stepStatus hg h.steps hover hi
  refine ⟨fun i hi => ⟨?_, ?_⟩, ?_⟩
  · rw [hstatus i hi, hrecorded.skipped_iff hg hplaced hover hi]
    refine and_congr_right fun _ => exists_congr ?_
    intro k
    constructor
    · rintro ⟨⟨hk, hfailed, hallow⟩, hbefore⟩
      rw [hstatus k hk]
      exact ⟨hk, hfailed, hallow, hbefore⟩
    · rintro ⟨hk, hfailed, hallow, hbefore⟩
      rw [hstatus k hk] at hfailed
      exact ⟨⟨hk, hfailed, hallow⟩, hbefore⟩
  · intro hskipped
    obtain ⟨s, hs, hwhere⟩ := hrecorded.ended hg hplaced hover hi
    rw [hstatus i hi, hs] at hskipped ⊢
    have htried : s.Tried := by
      rcases hwhere with ⟨rfl, -⟩ | ⟨htried, -⟩
      · exact absurd rfl hskipped
      · exact htried
    refine ⟨?_, s, rfl, htried⟩
    obtain ⟨v, hv, hmem⟩ := h.was_run hg hi hs (tried_ne htried).1 (tried_ne htried).2.2
    rcases hv with hv | rfl
    · obtain ⟨r, hr, hnode⟩ := List.mem_map.1 hmem
      exact ⟨v, hv, r, hr, hnode⟩
    · rw [hrunning] at hmem
      cases hmem
  · intro v hv r hr
    obtain ⟨hsteps, hsteps'⟩ := h.between hv
    obtain ⟨hplacedv, -⟩ := steps_recorded hg hsteps
    have hmem := mem_runningNodes hr
    have hleaf := hplacedv.leaf _ (List.mem_append_right _ hmem)
    refine ⟨hleaf, ?_, hplacedv.resolved r hr⟩
    intro hskipped
    obtain ⟨s, hs, hran⟩ := not_skipped_of_running hg hsteps hsteps' hmem
    rw [hstatus _ hleaf, hs] at hskipped
    cases hskipped
    rcases hran with hran | hran
    · cases hran
    · exact (tried_ne hran).2.2 rfl

end Skips

/-! ### A release that does not compile -/

/-- An agent at which the step of a name fails. -/
def failingAt (name : String) : Agent := fun step _ =>
  { answer := some (.response { exitCode := if step.name = name then 1 else 0 }) }

/-- The run of a release whose first step fails. -/
def releaseRun (g : Graph) : Walk :=
  (Timeline.run { graph := g } (failingAt "compile") 0 none).walk

lemma releaseRun_over : ∃ g, Graph.release.compile = .ok g ∧ Over (releaseRun g) ∧
    g.tree.isLeaf 4 = true ∧
    (Run.complete g (releaseRun g)).job.stepStatus g 4 = some .skipped :=
  Graph.exists_compiled (by cbv)

theorem skipped_iff_and_run_release : ∃ g w past, Graph.release.compile = .ok g ∧
    Course { graph := g } .any 0 past w ∧ Over w ∧ g.isPost 4 = false ∧
    ∃ k, g.tree.isLeaf k = true ∧ g.allowsFailure k = false ∧ g.Before k 4 := by
  obtain ⟨g, hg, hover, hleaf, hskipped⟩ := releaseRun_over
  obtain ⟨past, hpast⟩ := exists_course (timeline_steps (p := { graph := g }) 0 none)
  obtain ⟨hleaves, -⟩ := skipped_iff_and_run (p := { graph := g }) hg hpast hover
  obtain ⟨hpost, k, hk, -, hallow, hbefore⟩ := (hleaves 4 hleaf).1.1 hskipped
  exact ⟨g, _, past, hg, hpast, hover, hpost, k, hk, hallow, hbefore⟩

end StepFlow.Walk
