import StepFlow.Proofs.Walk.Completion
import StepFlow.Proofs.Walk.Orders
import StepFlow.Proofs.Walk.Verdict

/-!
Dry runs. The agent of the dry run answers every attempt at once and always in the same way: a step
that it serves succeeds at the first attempt, and any other fails at all of them. So the verdict on the
job can be read off the tags of the agent and what the leaves of the flow ask for. A leaf that asks for
other tags may be skipped and never be tried, but then another such leaf before it was.
-/

namespace StepFlow

namespace Attempt

variable {step : EffectiveStep} {attempt : UInt32} {agent : UInt32 → AttemptEnd}

/-- A step ends as one of the attempts at it does. -/
lemma exists_tryFrom_outcome (step : EffectiveStep) (agent : UInt32 → AttemptEnd)
    (attempt : UInt32) (more : Nat) :
    ∃ a, (tryFrom step agent attempt more).outcome = outcome step a (agent a) := by
  induction more generalizing attempt with
  | zero => exact ⟨attempt, rfl⟩
  | succ more ih =>
    rw [tryFrom]
    split
    · exact ih (attempt + 1)
    · exact ⟨attempt, rfl⟩

/-- A step that succeeds at once is tried once. -/
lemma all_of_success (h : (outcome step 1 (agent 1)).status = .success) :
    all step agent = ⟨outcome step 1 (agent 1), [.make 1]⟩ := by
  refine tryFrom_last ?_ _
  unfold isRetried
  split
  · rfl
  · simp [h]

end Attempt

/-! ### Whom an agent serves -/

namespace DryRun

variable {tags : List String} {step : EffectiveStep}

lemma serves_eq_false_iff {wanted : List String} :
    serves tags wanted = false ↔ tags ≠ [] ∧ wanted ≠ [] ∧ ∀ a ∈ wanted, a ∉ tags := by
  simp [serves, and_assoc]

/-- How an attempt ends in a dry run, whatever its number. -/
lemma behaviour_eq (tags : List String) (step : EffectiveStep) (attempt : UInt32) :
    (agent tags).behaviour step attempt = .answered (match dispatch tags step with
      | .ok r => .response r
      | .error e => .error e) := by
  unfold Agent.behaviour agent
  cases dispatch tags step <;> simp [Reply.outcome]

/-- A step that the agent serves succeeds at the first attempt. -/
lemma outcome_served (h : serves tags step.agents = true) : ∃ r,
    Attempt.outcome step 1 ((agent tags).behaviour step 1) = .success r 1 := by
  rw [behaviour_eq, dispatch, if_pos h]
  exact ⟨_, rfl⟩

lemma all_served (h : serves tags step.agents = true) : ∃ r,
    Attempt.all step ((agent tags).behaviour step) = ⟨.success r 1, [.make 1]⟩ := by
  obtain ⟨r, hr⟩ := outcome_served h
  exact ⟨r, by rw [Attempt.all_of_success (by rw [hr]; rfl), hr]⟩

/-- A step that the agent does not serve fails. -/
lemma all_refused (h : serves tags step.agents = false) :
    (Attempt.all step ((agent tags).behaviour step)).outcome.status = .failure := by
  obtain ⟨a, ha⟩ := Attempt.exists_tryFrom_outcome step ((agent tags).behaviour step) 1
    (step.maxAttempts.toNat - 1)
  rw [Attempt.all, ha, behaviour_eq, dispatch, h]
  rfl

end DryRun

namespace Walk

section DryRuns

variable {f : Flow} {p : WalkPlan} {driver : Driver}
  {behaviour : EffectiveStep → UInt32 → AttemptEnd} {now : Time} {w : Walk} {i : Nat}
  {tags : List String}

/-! ### The end of a walk -/

/-- Closing the job leaves what is kept of a leaf as it is. -/
lemma complete_account (hg : f.compile = .ok p.graph) (h : Steps p driver (fresh p.graph now) w)
    (hover : Over w) (hi : p.graph.tree.isLeaf i = true) :
    account p.graph (Run.complete p.graph w) i = account p.graph w.data i := by
  obtain ⟨hplaced, hrecorded⟩ := steps_recorded hg h
  obtain ⟨⟨status, hevents⟩, hrecords⟩ := Run.close_success hg hrecorded.job
  rw [account, account, complete_eq hg hplaced hover, hrecords i hi, hevents, told_concat,
    if_neg (by simp [Event.step?])]

/-- What is kept in the end of a leaf that was not doomed: it was tried, as it would be alone. -/
lemma ended_account (hg : f.compile = .ok p.graph)
    (h : Steps p (.of behaviour) (fresh p.graph now) w) (hover : Over w)
    (hi : p.graph.tree.isLeaf i = true) (hdoomed : i ∉ w.doomed) :
    ∃ n step, p.graph.tree.node? i = some n ∧ step.name = n.name ∧
      p.graph.tree.resolve? i p.defaults = some step ∧
      account p.graph w.data i = .ended n step (Attempt.all step (behaviour step)) := by
  obtain ⟨n, step, hn, hstep, hname, -⟩ := resolve_of_leaf hi p.defaults
  refine ⟨n, step, hn, hname, hstep, ?_⟩
  rw [account_eq hg h hover (Graph.isStep_of_isLeaf hi) hn,
    finalAccount, if_neg hdoomed, hi, hstep]

/-- A job fails if a leaf stands against its success. If none does it succeeds, and nothing was
skipped. -/
lemma complete_cases (hg : f.compile = .ok p.graph) (h : Steps p driver (fresh p.graph now) w)
    (hover : Over w) :
    (∃ k, w.data.job.Blocks p.graph k) ∧ (Run.complete p.graph w).job.status = .failure ∨
    (¬ ∃ k, w.data.job.Blocks p.graph k) ∧ (Run.complete p.graph w).job.status = .success ∧
      ∀ r ∈ (Run.complete p.graph w).job.steps, r.status ≠ .skipped := by
  obtain ⟨hplaced, hrecorded⟩ := steps_recorded hg h
  have hkept := steps_kept hg h
  obtain ⟨hstatus, hsteps, -⟩ := Run.close_running (g := p.graph) .success hrecorded.job rfl
  rw [← complete_eq hg hplaced hover, Lifecycle.ending] at hstatus
  rw [← complete_eq hg hplaced hover] at hsteps
  by_cases hblocks : ∃ k, w.data.job.Blocks p.graph k
  · have hblocking := (hkept.settled_hasBlocking_iff hg).2 hblocks
    exact .inl ⟨hblocks, by rw [hstatus, hblocking]; rfl⟩
  · have hblocking := mt (hkept.settled_hasBlocking_iff hg).1 hblocks
    refine .inr ⟨hblocks, ?_, ?_⟩
    · rw [hstatus, Bool.eq_false_iff.2 hblocking]
      rfl
    · rw [hsteps]
      exact Run.settled_not_skipped hg hkept.labelled fun i r hi hr =>
        hkept.not_skipped hg hplaced hrecorded hover hblocks hi hr

/-! ### The end of a dry run -/

/-- The leaf has no leave to fail, and asks for agents but for none of these tags. -/
def Unserved (p : WalkPlan) (tags : List String) (i : Nat) : Prop :=
  p.graph.tree.isLeaf i = true ∧ p.graph.allowsFailure i = false ∧
    ∃ step, p.graph.tree.resolve? i p.defaults = some step ∧ step.agents ≠ [] ∧
      ∀ a ∈ step.agents, a ∉ tags

/-- A leaf that a dry run did not skip stands against the success of the job just when the agent does
not serve it. -/
lemma dry_blocks_iff (hg : f.compile = .ok p.graph)
    (h : Steps p (.of (DryRun.agent tags).behaviour) (fresh p.graph now) w) (hover : Over w)
    (hdoomed : i ∉ w.doomed) :
    w.data.job.Blocks p.graph i ↔ tags ≠ [] ∧ Unserved p tags i := by
  refine Iff.trans (and_congr_right fun hi => ?_) and_left_comm
  refine Iff.trans (and_comm.trans (and_congr_right fun _ => ?_)) and_left_comm
  obtain ⟨n, step, -, -, hstep, haccount⟩ := ended_account hg h hover hi hdoomed
  have hstatus : w.data.job.stepStatus p.graph i =
      some (Attempt.all step ((DryRun.agent tags).behaviour step)).outcome.status := by
    rw [stepStatus_eq, haccount]
    rfl
  simp only [hstatus, hstep, Option.some.injEq, exists_eq_left']
  rw [← DryRun.serves_eq_false_iff]
  cases hserves : DryRun.serves tags step.agents with
  | false => exact iff_of_true (.inl (DryRun.all_refused hserves)) rfl
  | true =>
    obtain ⟨r, hr⟩ := DryRun.all_served hserves
    refine iff_of_false ?_ Bool.noConfusion
    rw [hr]
    rintro (hfailure | htimeout)
    · cases hfailure
    · cases htimeout

/-- Some leaf stands against the success of a dry run just when the agent does not serve some leaf. If
it was skipped, so because of another one. -/
lemma exists_dry_blocks_iff (hg : f.compile = .ok p.graph)
    (h : Steps p (.of (DryRun.agent tags).behaviour) (fresh p.graph now) w) (hover : Over w) :
    (∃ k, w.data.job.Blocks p.graph k) ↔ tags ≠ [] ∧ ∃ i, Unserved p tags i := by
  obtain ⟨hplaced, hrecorded⟩ := steps_recorded hg h
  constructor
  · rintro ⟨k, hblocks⟩
    -- a leaf that failed was not skipped
    have hdoomed : k ∉ w.doomed := by
      intro hdoomed
      have hskipped := (hrecorded.skipped_iff hg hplaced hover hblocks.1).2
        ((hrecorded.doomed k).1 hdoomed)
      exact not_failed hskipped rfl hblocks.2.1
    obtain ⟨htags, hunserved⟩ := (dry_blocks_iff hg h hover hdoomed).1 hblocks
    exact ⟨htags, k, hunserved⟩
  · rintro ⟨htags, i, hunserved⟩
    by_cases hdoomed : i ∈ w.doomed
    · obtain ⟨-, k, hblocks, -⟩ := (hrecorded.doomed i).1 hdoomed
      exact ⟨k, hblocks⟩
    · exact ⟨i, (dry_blocks_iff hg h hover hdoomed).2 ⟨htags, hunserved⟩⟩

/-- A leaf that the agent serves and that a dry run did not skip succeeds at its only attempt. -/
lemma dry_served (hg : f.compile = .ok p.graph)
    (h : Steps p (.of (DryRun.agent tags).behaviour) (fresh p.graph now) w) (hover : Over w)
    (hi : p.graph.tree.isLeaf i = true) (hdoomed : i ∉ w.doomed)
    (hserves : ∀ step, p.graph.tree.resolve? i p.defaults = some step →
      DryRun.serves tags step.agents = true) :
    ∃ r path, (Run.complete p.graph w).job.step? (p.graph.name i) = some r ∧
      r.status = .success ∧ r.attempts = 1 ∧
      told (Run.complete p.graph w).events (p.graph.name i) =
        [.stepStarted (p.graph.name i) path,
          .stepFinished (p.graph.name i) .success 1 none] := by
  obtain ⟨n, step, hn, hname, hstep, haccount⟩ := ended_account hg h hover hi hdoomed
  obtain ⟨response, hall⟩ := DryRun.all_served (hserves step hstep)
  rw [← complete_account hg h hover hi, hall] at haccount
  obtain ⟨hrecord, htold⟩ := Prod.mk.inj haccount
  obtain ⟨r, hr, hsame⟩ := Option.map_eq_some_iff.1 hrecord
  refine ⟨r, step.path, hr, congrArg StepRecord.status hsame, congrArg StepRecord.attempts hsame,
    htold.trans ?_⟩
  rw [hname, name_eq hn]
  rfl

/-- **The verdict on a dry run**, for any tags, however many steps may be run at once and in whichever
order attempts end. In time and without a limit it is over in the end; and wherever it has got to, it
can be brought to its end. The job fails then just when the agent has tags and does not serve some leaf
that has no leave to fail; otherwise it succeeds. So without tags it succeeds: no step is skipped, and
each leaf succeeds at its only attempt. -/
theorem dry_run_verdict (hg : f.compile = .ok p.graph) (tags : List String) (start : Time) :
    Over (Timeline.run p (DryRun.agent tags) start none).walk ∧
    ∀ w, Steps p (.of (DryRun.agent tags).behaviour) (fresh p.graph start) w →
      (∃ w', Steps p (.of (DryRun.agent tags).behaviour) w w' ∧ Over w') ∧
      (Over w →
        ((Run.complete p.graph w).job.status = .failure ↔
          tags ≠ [] ∧ ∃ i, Unserved p tags i) ∧
        ((Run.complete p.graph w).job.status ≠ .failure →
          (Run.complete p.graph w).job.status = .success) ∧
        (tags = [] → (Run.complete p.graph w).job.status = .success ∧
          (∀ r ∈ (Run.complete p.graph w).job.steps, r.status ≠ .skipped) ∧
          ∀ i, p.graph.tree.isLeaf i = true → ∃ r path,
            (Run.complete p.graph w).job.step? (p.graph.name i) = some r ∧
              r.status = .success ∧ r.attempts = 1 ∧
              told (Run.complete p.graph w).events (p.graph.name i) =
                [.stepStarted (p.graph.name i) path,
                  .stepFinished (p.graph.name i) .success 1 none])) := by
  refine ⟨timeline_over hg _ start, fun w h => ⟨?_, fun hover => ?_⟩⟩
  · exact exists_over (Graph.compile_sound hg) (fun step attempt => ⟨_, rfl⟩)
      (steps_recorded hg h).1
  have hblocks := exists_dry_blocks_iff hg h hover
  rcases complete_cases hg h hover with ⟨hfails, hstatus⟩ | ⟨hnone, hstatus, hskipped⟩
  · rw [hstatus, ← hblocks]
    refine ⟨iff_of_true rfl hfails, fun hne => absurd rfl hne, fun htags => ?_⟩
    exact absurd htags (hblocks.1 hfails).1
  · rw [hstatus, ← hblocks]
    refine ⟨iff_of_false JobStatus.noConfusion hnone, fun _ => rfl, ?_⟩
    rintro rfl
    refine ⟨rfl, hskipped, fun i hi => ?_⟩
    have hdoomed : i ∉ w.doomed := by
      rw [(steps_recorded hg h).2.doomed i]
      rintro ⟨-, k, hk, -⟩
      exact hnone ⟨k, hk⟩
    exact dry_served hg h hover hi hdoomed fun _ _ => rfl

end DryRuns

/-! ### An app for two platforms -/

/-- An app that is built for one platform, and then signed and checked on another. -/
def app : Flow where
  agents := ["linux"]
  steps :=
    [("build", { spec := { bash := some "make" } }),
      ("apple", { spec := { agents := ["macos"] }, steps :=
        [("sign", { spec := { bash := some "codesign" } }),
          ("staple", { spec := { bash := some "stapler", dependencies := ["sign"] } })] })]

/-- The dry run of the app with an agent for the first platform only. -/
def appRun (g : Graph) : Walk :=
  (Timeline.run { graph := g } (DryRun.agent ["linux"]) 0 none).walk

lemma app_compiled : ∃ g, app.compile = .ok g ∧
    g.tree.isLeaf 4 = true ∧ g.allowsFailure 4 = false ∧
      (g.tree.resolve? 4 {}).map (·.agents) = some ["macos"] :=
  Graph.exists_compiled (by cbv)

/-- The last step inherits that it asks for the other platform. -/
theorem dry_run_verdict_app : ∃ g, app.compile = .ok g ∧ Unserved { graph := g } ["linux"] 4 ∧
    Over (appRun g) ∧ (Run.complete g (appRun g)).job.status = .failure := by
  obtain ⟨g, hg, hleaf, hallow, hagents⟩ := app_compiled
  obtain ⟨step, hstep, hagents⟩ := Option.map_eq_some_iff.1 hagents
  have hunserved : Unserved { graph := g } ["linux"] 4 := by
    refine ⟨hleaf, hallow, step, hstep, ?_⟩
    rw [hagents]
    decide
  obtain ⟨hover, hverdict⟩ := dry_run_verdict (p := { graph := g }) hg ["linux"] 0
  obtain ⟨-, hverdict⟩ := hverdict (appRun g) (timeline_steps_of hg 0 none)
  obtain ⟨hfails, -⟩ := hverdict hover
  exact ⟨g, hg, hunserved, hover, hfails.2 ⟨by decide, 4, hunserved⟩⟩

end Walk

end StepFlow
