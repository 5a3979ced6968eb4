import StepFlow.Proofs.Walk.LeftBehind
import StepFlow.Proofs.Walk.Verdict

/-!
Jobs that are cut short. When the time limit of a job strikes, its walk stops wherever it is, and
only the records tell what was left behind. As the record of a leaf says where the leaf is, every
leaf that is being run takes the status of the limit, every leaf to come is skipped, and all others
stay as they are; then the stages follow.
-/

namespace StepFlow

namespace Walk

section CutShort

variable {f : Flow} {p : WalkPlan} {driver : Driver} {now : Time} {w : Walk} {i : Nat}

/-! ### The end -/

/-- While a job is walked its end is not told. -/
lemma Narrated.finishes_eq (h : Narrated p w) : Lifecycle.finishes w.data.events = [] := by
  obtain ⟨flow, n, rest, heq, hrest⟩ := h.opening
  rw [heq]
  refine List.filterMap_eq_nil_iff.2 fun e he => ?_
  rcases List.mem_cons.1 he with rfl | he
  · rfl
  · cases e with
    | jobFinished s => exact absurd rfl (hrest _ he)
    | _ => rfl

/-- A leaf that is settled is over. -/
lemma Recorded.isTerminal_of_settled (hplaced : Placed p w) (h : Recorded p w)
    (hi : p.graph.tree.isLeaf i = true) (hsettled : i ∈ w.schedule.settled) {s : StepStatus}
    (hs : w.data.job.stepStatus p.graph i = some s) : s.isTerminal = true := by
  obtain ⟨s', hs', hfits⟩ := h.fits i hi
  cases hs.symm.trans hs'
  cases s with
  | pending => exact absurd hsettled hfits.1
  | running => exact absurd hsettled (hplaced.not_settled (List.mem_append_right _ hfits))
  | _ => rfl

/-- What the limit of a job makes of a leaf: of its record, and of what is told of it. -/
lemma cutShort_leaf (hg : f.compile = .ok p.graph) (hrecorded : Recorded p w)
    (hi : p.graph.tree.isLeaf i = true) {r : StepRecord}
    (hr : w.data.job.step? (p.graph.name i) = some r) :
    (Run.cutShort p.graph w).job.step? (p.graph.name i) =
        some (Run.abandonRecord w.data.now .timeout Run.jobTimedOut r) ∧
      told (Run.cutShort p.graph w).events (p.graph.name i) =
        told w.data.events (p.graph.name i) ++
          if r.status = .pending then [.stepSkipped (p.graph.name i) Run.jobTimedOut] else [] := by
  have hleft := Run.abandoned_abandon hg .timeout Run.jobTimedOut w.data
  have hjob := hleft.job.trans hrecorded.job
  constructor
  · rw [Run.cutShort, hleft.close_step? hg hjob rfl hi, hr]
    rfl
  · rw [Run.cutShort, hleft.close_told hg hjob rfl hi, Job.stepStatus_eq_some hr]
    simp

/-- **A job whose time limit strikes**, at any moment of its walk, ends with a timeout, which is told
once. Every leaf that was being run timed out; every leaf that was neither settled nor being run is
skipped, and nothing else was ever told of it; every leaf that was settled keeps its record. And all
steps are over, leaves and stages. -/
theorem cut_short_at_any_time (hg : f.compile = .ok p.graph)
    (h : Steps p driver (fresh p.graph now) w) :
    (Run.cutShort p.graph w).job.status = .timeout ∧
    Lifecycle.finishes (Run.cutShort p.graph w).events = [.timeout] ∧
    (∀ i, p.graph.tree.isLeaf i = true →
      ((∃ r ∈ w.running, r.node = i) →
        (Run.cutShort p.graph w).job.stepStatus p.graph i = some .timeout) ∧
      (i ∉ w.schedule.settled → (∀ r ∈ w.running, r.node ≠ i) →
        (Run.cutShort p.graph w).job.stepStatus p.graph i = some .skipped ∧
        told (Run.cutShort p.graph w).events (p.graph.name i) =
          [.stepSkipped (p.graph.name i) Run.jobTimedOut]) ∧
      (i ∈ w.schedule.settled → (Run.cutShort p.graph w).job.step? (p.graph.name i) =
        w.data.job.step? (p.graph.name i))) ∧
    ∀ r ∈ (Run.cutShort p.graph w).job.steps, r.status.isTerminal = true := by
  obtain ⟨hplaced, hrecorded⟩ := steps_recorded hg h
  have hnarrated := steps_narrated hg h
  have hkept := steps_kept hg h
  have hleft := Run.abandoned_abandon hg .timeout Run.jobTimedOut w.data
  obtain ⟨hstatus, hsteps, hevents⟩ :=
    Run.close_running (g := p.graph) .timeout (hleft.job.trans hrecorded.job) rfl
  refine ⟨hstatus, ?_, ?_, ?_⟩
  · show Lifecycle.finishes (Run.close p.graph .timeout _).events = _
    rw [hevents, Lifecycle.finishes_append, hleft.finishes, hnarrated.finishes_eq]
    rfl
  · intro i hi
    obtain ⟨-, r, -, hr, -⟩ := hkept.labelled.exists_step? hg (Graph.isStep_of_isLeaf hi)
    have hstatus_r := Job.stepStatus_eq_some hr
    obtain ⟨hrecord, htold⟩ := cutShort_leaf hg hrecorded hi hr
    refine ⟨?_, ?_, ?_⟩
    · rintro ⟨running, hmem, rfl⟩
      have hrunning := hrecorded.status_of_running hplaced (mem_runningNodes hmem)
      rw [hstatus_r, Option.some.injEq] at hrunning
      rw [Job.stepStatus, hrecord, Run.abandonRecord_running _ hrunning]
      rfl
    · intro hsettled hnot
      have hr' : i ∉ w.runningNodes := by
        intro hmem
        obtain ⟨running, hrunning, hnode⟩ := List.mem_map.1 hmem
        exact hnot running hrunning hnode
      have hpending := hrecorded.status_of_waiting hi hsettled hr'
      have hnone : told w.data.events (p.graph.name i) = [] := hnarrated.story i hi _ hpending
      rw [hstatus_r, Option.some.injEq] at hpending
      refine ⟨?_, ?_⟩
      · rw [Job.stepStatus, hrecord, Run.abandonRecord_pending _ hpending]
        rfl
      · rw [htold, hnone, if_pos hpending]
        rfl
    · intro hsettled
      have hover := hrecorded.isTerminal_of_settled hplaced hi hsettled hstatus_r
      rw [hrecord, hr, Run.abandonRecord_over _ hover]
  · show ∀ r ∈ (Run.close p.graph .timeout _).job.steps, _
    rw [hsteps]
    refine Run.settled_isTerminal hg (hleft.labels.trans hkept.labelled) ?_
    intro i r hi hr
    rw [hleft.record i (Graph.isStep_of_isLeaf hi), if_pos (Run.mem_leaves hg hi)] at hr
    obtain ⟨r', -, rfl⟩ := Option.map_eq_some_iff.1 hr
    exact Run.abandonRecord_isTerminal _ rfl r'

end CutShort

/-! ### A check that hangs -/

/-- An agent that never answers at the step of a name. -/
def hangingAt (name : String) : Agent := fun step _ =>
  { answer := if step.name = name then none else some (.response {}) }

/-- The nightly run, cut short in its first check. -/
def hangingRun (g : Graph) : Walk :=
  (Timeline.run { graph := g } (hangingAt "lint") 0 (some 1)).walk

lemma hangingRun_cut : ∃ g, nightly.compile = .ok g ∧ (hangingRun g).runningNodes = [3] ∧
    1 ∈ (hangingRun g).schedule.settled ∧ 4 ∉ (hangingRun g).schedule.settled ∧
    g.tree.isLeaf 1 = true ∧ g.tree.isLeaf 3 = true ∧ g.tree.isLeaf 4 = true := by
  obtain ⟨g, hg, hrunning, hsettled, hleaves⟩ := Graph.exists_compiled (f := nightly)
    (P := fun g => (hangingRun g).runningNodes = [3] ∧ (hangingRun g).schedule.settled = [2, 1, 0] ∧
      g.tree.isLeaf 1 = true ∧ g.tree.isLeaf 3 = true ∧ g.tree.isLeaf 4 = true) (by cbv)
  exact ⟨g, hg, hrunning, by simp [hsettled], by simp [hsettled], hleaves⟩

theorem cut_short_at_any_time_nightly : ∃ g, nightly.compile = .ok g ∧
    Steps { graph := g } .any (fresh g 0) (hangingRun g) ∧
    (Run.cutShort g (hangingRun g)).job.status = .timeout ∧
    (Run.cutShort g (hangingRun g)).job.step? (g.name 1) =
      (hangingRun g).data.job.step? (g.name 1) ∧
    (Run.cutShort g (hangingRun g)).job.stepStatus g 3 = some .timeout ∧
    (Run.cutShort g (hangingRun g)).job.stepStatus g 4 = some .skipped ∧
    ∀ r ∈ (Run.cutShort g (hangingRun g)).job.steps, r.status.isTerminal = true := by
  obtain ⟨g, hg, hrunning, hsettled, hahead, hleaf, hleaf', hleaf''⟩ := hangingRun_cut
  have hsteps : Steps { graph := g } .any (fresh g 0) (hangingRun g) := timeline_steps 0 (some 1)
  obtain ⟨hstatus, -, hleaves, hover⟩ := cut_short_at_any_time (p := { graph := g }) hg hsteps
  refine ⟨g, hg, hsteps, hstatus, (hleaves 1 hleaf).2.2 hsettled, (hleaves 3 hleaf').1 ?_,
    ((hleaves 4 hleaf'').2.1 hahead ?_).1, hover⟩
  · have hmem : 3 ∈ (hangingRun g).runningNodes := by
      rw [hrunning]
      exact List.mem_singleton_self 3
    exact List.mem_map.1 hmem
  · intro r hr hnode
    have hmem := mem_runningNodes hr
    rw [hrunning, hnode] at hmem
    simp at hmem

end Walk

end StepFlow
