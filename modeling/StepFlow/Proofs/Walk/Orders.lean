import StepFlow.Proofs.Walk.Accounts
import StepFlow.Proofs.Walk.Timelines

/-!
Jobs in any order. Two walks over one graph may differ in how many steps they run at once, in which
order attempts end and when, and in what responses hold besides their exit codes. When both are over,
the same nodes were doomed in both, and so the same is kept of every step and of the job.
-/

namespace StepFlow.Walk

open Lifecycle (Data)

/-! ### Events by the steps that they are about -/

/-- What is told of steps, and not of the job as a whole. -/
def stepEvents (events : List Event) : List Event := events.filter fun e => e.step?.isSome

/-- What is told of steps is given by what is told of each, but for the order among them. -/
lemma stepEvents_perm {events events' : List Event}
    (h : ∀ name, told events name = told events' name) :
    (stepEvents events).Perm (stepEvents events') := by
  -- an event about a step is counted among what is told of that step
  have hcount : ∀ (l : List Event) (e : Event) (name : String), e.step? = some name →
      (stepEvents l).count e = (told l name).count e := by
    intro l e name he
    have hfilter : ∀ q : Event → Bool, q e = true → (l.filter q).count e = l.count e :=
      fun q hq => List.count_filter hq
    rw [stepEvents, told, hfilter _ (by rw [he]; rfl), hfilter _ (decide_eq_true he)]
  rw [List.perm_iff_count]
  intro e
  cases he : e.step? with
  | some name => rw [hcount _ e name he, hcount _ e name he, h name]
  | none =>
    have hnot : ∀ l : List Event, (stepEvents l).count e = 0 := by
      intro l
      apply List.count_eq_zero_of_not_mem
      intro hmem
      have := (List.mem_filter.1 hmem).2
      rw [he] at this
      cases this
    rw [hnot, hnot]

/-! ### Two walks over one graph -/

section Agree

variable {f : Flow} {p : WalkPlan} {behaviour : EffectiveStep → UInt32 → AttemptEnd} {m : Nat}
  {now now' : Time} {w w' : Walk} {i : Nat}

/-- What is kept of a step when a walk is over. -/
lemma account_eq (hg : f.compile = .ok p.graph)
    (h : Steps p (.of behaviour) (fresh p.graph now) w) (hover : Over w)
    (hi : p.graph.tree.isStep i = true) {n : TreeNode} (hn : p.graph.tree.node? i = some n) :
    account p.graph w.data i = finalAccount p behaviour w.doomed i n :=
  (steps_traced hg h).account_eq (Graph.compile_sound hg) (steps_recorded hg h).1 hover hi
    ((Graph.compile_isStep_iff hg).1 hi).2 hn

/-- What is kept of a step is the same in two walks that are over if the step was doomed in both or
in none. -/
lemma account_agree (hg : f.compile = .ok p.graph)
    (h : Steps p (.of behaviour) (fresh p.graph now) w) (hover : Over w)
    (h' : Steps { p with maxParallel := m } (.of behaviour) (fresh p.graph now') w')
    (hover' : Over w') (hi : p.graph.tree.isStep i = true)
    (hdoomed : i ∈ w.doomed ↔ i ∈ w'.doomed) :
    account p.graph w.data i = account p.graph w'.data i := by
  obtain ⟨n, hn, -⟩ := Tree.isStep_iff.1 hi
  have heq : account p.graph w'.data i = finalAccount p behaviour w'.doomed i n :=
    account_eq (p := { p with maxParallel := m }) hg h' hover' hi hn
  rw [account_eq hg h hover hi hn, heq, finalAccount, finalAccount]
  simp only [hdoomed]

/-- The status of a step is part of what is kept of it. -/
lemma stepStatus_eq (g : Graph) (d : Data) (i : Nat) :
    d.job.stepStatus g i = (account g d i).1.map (·.status) := by
  rw [account, Job.stepStatus, Option.map_map]
  rfl

/-- The same nodes are doomed in two walks that are over. It is decided by the leaves before a node,
and those were skipped, or ended as they do alone, in both walks. -/
lemma doomed_agree (hg : f.compile = .ok p.graph)
    (h : Steps p (.of behaviour) (fresh p.graph now) w) (hover : Over w)
    (h' : Steps { p with maxParallel := m } (.of behaviour) (fresh p.graph now') w')
    (hover' : Over w') (hi : i < p.graph.size) : i ∈ w.doomed ↔ i ∈ w'.doomed := by
  have hsound := Graph.compile_sound hg
  have hrecorded := (steps_recorded hg h).2
  have hrecorded' := (steps_recorded (p := { p with maxParallel := m }) hg h').2
  -- with a node, all that is before it
  have hall : ∀ i < p.graph.size, ∀ k, (k = i ∨ p.graph.Before k i) →
      (k ∈ w.doomed ↔ k ∈ w'.doomed) := by
    refine hsound.induction (P := fun i => ∀ k, (k = i ∨ p.graph.Before k i) → _) ?_
    intro i hi ih
    have hbefore : ∀ k, p.graph.Before k i → (k ∈ w.doomed ↔ k ∈ w'.doomed) := by
      intro k hk
      rcases Graph.before_iff.1 hk with hparent | ⟨q, hq, hkq⟩
      · exact ih k hparent k (.inl rfl)
      · exact ih q hq k (.inr hkq)
    rintro k (rfl | hk)
    · rw [hrecorded.doomed, hrecorded'.doomed]
      refine and_congr_right fun _ => exists_congr fun l => and_congr_left ?_
      intro hl
      refine and_congr_right fun hleaf => and_congr_left fun _ => ?_
      have haccount := account_agree hg h hover h' hover' (Graph.isStep_of_isLeaf hleaf)
        (hbefore l hl)
      rw [stepStatus_eq, stepStatus_eq, haccount]
    · exact hbefore k hk
  exact hall i hi i (.inl rfl)

/-- What is kept of every step is the same in two walks that are over. -/
theorem accounts_agree (hg : f.compile = .ok p.graph)
    (h : Steps p (.of behaviour) (fresh p.graph now) w) (hover : Over w)
    (h' : Steps { p with maxParallel := m } (.of behaviour) (fresh p.graph now') w')
    (hover' : Over w') (hi : p.graph.tree.isStep i = true) :
    account p.graph w.data i = account p.graph w'.data i :=
  account_agree hg h hover h' hover' hi
    (doomed_agree hg h hover h' hover' ((Graph.compile_isStep_iff hg).1 hi).2)

lemma told_agree (hg : f.compile = .ok p.graph)
    (h : Steps p (.of behaviour) (fresh p.graph now) w) (hover : Over w)
    (h' : Steps { p with maxParallel := m } (.of behaviour) (fresh p.graph now') w')
    (hover' : Over w') (name : String) : told w.data.events name = told w'.data.events name := by
  by_cases hname : ∃ i, p.graph.tree.isStep i = true ∧ name = p.graph.name i
  · obtain ⟨i, hi, rfl⟩ := hname
    exact congrArg (·.2) (accounts_agree hg h hover h' hover' hi)
  · have hforeign : ∀ i, p.graph.tree.isStep i = true → name ≠ p.graph.name i :=
      fun i hi heq => hname ⟨i, hi, heq⟩
    rw [(steps_traced hg h).foreign name hforeign]
    exact ((steps_traced (p := { p with maxParallel := m }) hg h').foreign name hforeign).symm

lemma untimed_agree (hg : f.compile = .ok p.graph)
    (h : Steps p (.of behaviour) (fresh p.graph now) w) (hover : Over w)
    (h' : Steps { p with maxParallel := m } (.of behaviour) (fresh p.graph now') w')
    (hover' : Over w') : w.data.job.untimed = w'.data.job.untimed := by
  have hnames := (steps_traced hg h).names
  have hnames' := (steps_traced (p := { p with maxParallel := m }) hg h').names
  apply Job.untimed_ext
  · rw [hnames]
    exact Job.ofGraph_names_nodup hg
  · exact hnames.trans hnames'.symm
  · intro name
    by_cases hname : name ∈ (Job.ofGraph p.graph).steps.map (·.name)
    · obtain ⟨i, hi, rfl⟩ := Job.exists_step_of_mem hname
      exact congrArg (·.1) (accounts_agree hg h hover h' hover' hi)
    · -- under any other name stands no record
      have hnone : ∀ j : Job, j.steps.map (·.name) = (Job.ofGraph p.graph).steps.map (·.name) →
          j.step? name = none := by
        intro j hj
        rw [Job.step?, List.find?_eq_none]
        intro r hr heq
        apply hname
        rw [← hj, ← of_decide_eq_true heq]
        exact List.mem_map_of_mem hr
      rw [hnone _ hnames, hnone _ hnames']

/-- **The outcome of a job does not depend on scheduling.** With a driver whose attempts end as the
step and the number of the attempt say, two walks over a graph that are over, whatever may be run at
once in either and in whichever order and at whatever times attempts ended, leave every step with
the same status, attempts and error, leave the job with the same status, and have told the same of
the steps, but for the order. -/
theorem outcome_of_any_schedule (hg : f.compile = .ok p.graph)
    (h : Steps p (.of behaviour) (fresh p.graph now) w) (hover : Over w)
    (h' : Steps { p with maxParallel := m } (.of behaviour) (fresh p.graph now') w')
    (hover' : Over w') :
    (Run.complete p.graph w).job.untimed = (Run.complete p.graph w').job.untimed ∧
      (Run.complete p.graph w).job.status = (Run.complete p.graph w').job.status ∧
      (stepEvents (Run.complete p.graph w).events).Perm
        (stepEvents (Run.complete p.graph w').events) := by
  obtain ⟨hplaced, hrecorded⟩ := steps_recorded hg h
  obtain ⟨hplaced', hrecorded'⟩ := steps_recorded (p := { p with maxParallel := m }) hg h'
  have hclose := complete_eq hg hplaced hover
  have hclose' := complete_eq (p := { p with maxParallel := m }) hg hplaced' hover'
  obtain ⟨hrecords, hstatus⟩ := Run.close_untimed p.graph hrecorded.job hrecorded'.job
    (untimed_agree hg h hover h' hover')
  rw [hclose, hclose']
  refine ⟨hrecords, hstatus, ?_⟩
  obtain ⟨s, hevents⟩ := (Run.close_success hg hrecorded.job).1
  obtain ⟨s', hevents'⟩ := (Run.close_success hg hrecorded'.job).1
  -- what is told at the end is told of the job
  have hend : ∀ (l : List Event) (s : JobStatus),
      stepEvents (l ++ [.jobFinished s]) = stepEvents l := by
    intro l s
    simp [stepEvents, List.filter_append, Event.step?]
  rw [hevents, hevents', hend, hend]
  exact stepEvents_perm (told_agree hg h hover h' hover')

end Agree

/-! ### Checks beside each other -/

/-- Two checks that may be run at once, the first of them again if it fails, and a step behind
both. -/
def checks : Flow where
  steps :=
    [("checkout", { spec := { bash := some "git clone" } }),
      ("checks", { steps :=
        [("test", { spec := { bash := some "make test", retry := some 1,
                              dependencies := ["checkout"] } }),
          ("lint", { spec := { bash := some "make lint", dependencies := ["checkout"] } })] }),
      ("publish", { spec := { bash := some "make dist", dependencies := ["test", "lint"] } })]

/-- An agent at which the tests succeed when they are run again, and the other check fails. The step
of a name takes all the time it may take, and all others take none. -/
def slowAt (name : String) : Agent := fun step attempt =>
  { wait := if step.name = name then step.timeout.toNat * 1000 else 0
    answer := some (.response {
      exitCode := if step.name = "lint" ∨ step.name = "test" ∧ attempt = 1 then 1 else 0
      output := name }) }

/-- The run of the checks with a number of slots, and one step that is slow. -/
def checksRun (g : Graph) (slots : Nat) (name : String) : Walk :=
  (Timeline.run { graph := g, maxParallel := slots } (slowAt name) 0 none).walk

lemma outcome_in_time {r : Reply} {step : EffectiveStep} {a : Answer} (ha : r.answer = some a)
    (hwait : r.wait ≤ step.timeout.toNat * 1000) : (r.outcome step).2 = .answered a := by
  simp [Reply.outcome, ha, hwait]

lemma slowAt_bare (name : String) (step : EffectiveStep) (attempt : UInt32) :
    ((slowAt name).behaviour step attempt).bare = ((slowAt "").behaviour step attempt).bare := by
  have hwait : ∀ name : String, (slowAt name step attempt).wait ≤ step.timeout.toNat * 1000 := by
    intro name
    show (if step.name = name then step.timeout.toNat * 1000 else 0) ≤ step.timeout.toNat * 1000
    split <;> omega
  rw [Agent.behaviour, Agent.behaviour, outcome_in_time rfl (hwait name),
    outcome_in_time rfl (hwait "")]
  rfl

lemma checksRun_over : ∃ g, checks.compile = .ok g ∧ Over (checksRun g 1 "test") ∧
    Over (checksRun g 4 "lint") ∧
    stepEvents (Run.complete g (checksRun g 1 "test")).events ≠
      stepEvents (Run.complete g (checksRun g 4 "lint")).events :=
  Graph.exists_compiled (by cbv)

theorem outcome_of_any_schedule_checks : ∃ g, checks.compile = .ok g ∧
    Over (checksRun g 1 "test") ∧ Over (checksRun g 4 "lint") ∧
    (Run.complete g (checksRun g 1 "test")).job.untimed =
      (Run.complete g (checksRun g 4 "lint")).job.untimed ∧
    stepEvents (Run.complete g (checksRun g 1 "test")).events ≠
      stepEvents (Run.complete g (checksRun g 4 "lint")).events ∧
    (stepEvents (Run.complete g (checksRun g 1 "test")).events).Perm
      (stepEvents (Run.complete g (checksRun g 4 "lint")).events) := by
  obtain ⟨g, hg, hover, hover', hne⟩ := checksRun_over
  have hdriver : ∀ name, Driver.of (slowAt name).behaviour = Driver.of (slowAt "").behaviour := by
    intro name
    funext step attempt e
    rw [Driver.of, slowAt_bare, Driver.of]
  have hsteps : ∀ (slots : Nat) (name : String), Steps { graph := g, maxParallel := slots }
      (.of (slowAt "").behaviour) (fresh g 0) (checksRun g slots name) := by
    intro slots name
    rw [← hdriver name]
    exact timeline_steps_of hg 0 none
  obtain ⟨hrecords, -, hevents⟩ := outcome_of_any_schedule hg (hsteps 1 "test") hover
    (hsteps 4 "lint") hover'
  exact ⟨g, hg, hover, hover', hrecords, hne, hevents⟩

end StepFlow.Walk
