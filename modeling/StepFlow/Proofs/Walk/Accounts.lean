import StepFlow.Proofs.Job.Untimed
import StepFlow.Proofs.Walk.Attempts
import StepFlow.Proofs.Walk.Story

/-!
What a job keeps of each of its steps, apart from the times. Where a step is in the walk says all of
it, once it is known how attempts at the step end: nothing before the step is entered, its start and
the retries so far while it is being tried, and then either that it was skipped or the end to which
the attempts lead when the step is tried on its own.
-/

namespace StepFlow

namespace Walk

open Lifecycle (Data)

/-- What is kept of a step, apart from the times: its record, and what was told of it. -/
abbrev Account := Option StepRecord × List Event

/-- What is kept of the step at a node. -/
def account (g : Graph) (d : Data) (i : Nat) : Account :=
  ((d.job.step? (g.name i)).map StepRecord.untimed, told d.events (g.name i))

namespace Account

/-- Nothing has happened to the step. -/
def ahead (n : TreeNode) : Account := (some (.ofNode n), [])

/-- The step was skipped. -/
def skipped (n : TreeNode) : Account :=
  (some ((StepRecord.ofNode n).skip 0 failedBefore).untimed, [.stepSkipped n.name failedBefore])

/-- The step is being tried. -/
def running (n : TreeNode) (step : EffectiveStep) (retries : List Event) : Account :=
  (some ((StepRecord.ofNode n).start 0).untimed, .stepStarted step.name step.path :: retries)

/-- The step is over. -/
def ended (n : TreeNode) (step : EffectiveStep) (t : Attempt.Tried) : Account :=
  (some ((StepRecord.ofNode n).finish 0 t.outcome.status t.outcome.attempts
      t.outcome.error).untimed,
    .stepStarted step.name step.path ::
      (t.events ++ [.stepFinished n.name t.outcome.status t.outcome.attempts t.outcome.error]))

end Account

/-! ### One step noted -/

/-- A change of the record of a node, and what is told of it. -/
def noted (g : Graph) (k : Nat) (change : Time → StepRecord → StepRecord) (e : Event) (d : Data) :
    Data :=
  { d with job := d.job.updateNode g k (change d.now), events := d.events ++ [e] }

/-- Data that were changed at no node but one. -/
structure SameBut (g : Graph) (k : Nat) (d d' : Data) : Prop where
  names : d'.job.steps.map (·.name) = d.job.steps.map (·.name)
  told : ∀ name, name ≠ g.name k → told d'.events name = told d.events name
  account : ∀ i, g.tree.isStep i = true → i ≠ k → account g d' i = account g d i

section Noted

variable {f : Flow} {g : Graph} {i k : Nat} {d : Data}

lemma SameBut.of_eq {d' : Data} (hjob : d'.job = d.job) (hevents : d'.events = d.events) :
    SameBut g k d d' where
  names := by rw [hjob]
  told := fun _ _ => by rw [hevents]
  account := fun _ _ _ => by rw [Walk.account, hjob, hevents, Walk.account]

lemma sameBut_noted (hg : f.compile = .ok g) (hk : g.tree.isStep k = true)
    (change : Time → StepRecord → StepRecord) (e : Event)
    (hname : ∀ now r, (change now r).name = r.name) (he : e.step? = some (g.name k)) :
    SameBut g k d (noted g k change e d) := by
  have htold : ∀ name, name ≠ g.name k →
      StepFlow.told (d.events ++ [e]) name = StepFlow.told d.events name := by
    intro name hne
    rw [told_concat, he, if_neg]
    intro h
    exact hne (Option.some.inj h).symm
  refine ⟨Job.map_updateNode (hname _), htold, ?_⟩
  intro i hi hik
  have hne : g.name i ≠ g.name k := fun h => hik ((Graph.compile_name_inj hg hi hk).1 h)
  rw [account, account]
  show (Option.map _ ((d.job.updateNode g k (change d.now)).step? (g.name i)), _) = _
  rw [Job.step?_updateNode hg hi hk (hname _), if_neg hik]
  exact congrArg _ (htold _ hne)

/-- The account of the node itself: the change is made and the event is told. -/
lemma account_noted (hg : f.compile = .ok g) (hk : g.tree.isStep k = true)
    (change : Time → StepRecord → StepRecord) (e : Event)
    (hname : ∀ now r, (change now r).name = r.name)
    (huntimed : ∀ now r, (change now r).untimed = (change 0 r.untimed).untimed)
    (he : e.step? = some (g.name k)) {r : StepRecord} {events : List Event}
    (h : account g d k = (some r, events)) :
    account g (noted g k change e d) k = (some (change 0 r).untimed, events ++ [e]) := by
  obtain ⟨hrecord, hevents⟩ := Prod.mk.inj h
  obtain ⟨r', hr', rfl⟩ := Option.map_eq_some_iff.mp hrecord
  rw [account]
  show (Option.map _ ((d.job.updateNode g k (change d.now)).step? (g.name k)),
    StepFlow.told (d.events ++ [e]) (g.name k)) = _
  rw [Job.step?_updateNode hg hk hk (hname _), if_pos rfl, hr', told_concat, if_pos he, hevents]
  simp only [Option.map_some, huntimed d.now]

/-- Something is told of a node whose record stays as it is. -/
lemma noted_same (g : Graph) (k : Nat) (e : Event) (d : Data) :
    noted g k (fun _ r => r) e d = { d with events := d.events ++ [e] } := by
  have hjob : d.job.updateNode g k (fun r => r) = d.job := by
    simp [Job.updateNode, Job.update]
  rw [noted, hjob]

end Noted

/-! ### Where a step stands -/

/-- What is kept of the step at a node, by the place of the node in the walk. Stages are passed
through without a trace, unless they are skipped. -/
inductive Stands (p : WalkPlan) (behaviour : EffectiveStep → UInt32 → AttemptEnd) (w : Walk)
    (i : Nat) (n : TreeNode) : Account → Prop
  | ahead (hsettled : i ∉ w.schedule.settled) (hrunning : i ∉ w.runningNodes) :
      Stands p behaviour w i n (.ahead n)
  | running {r : Running} {retries : List Event} (hr : r ∈ w.running) (hnode : r.node = i)
      (hretries : Underway behaviour r retries) :
      Stands p behaviour w i n (.running n r.step retries)
  | skipped (hsettled : i ∈ w.schedule.settled) (hdoomed : i ∈ w.doomed) :
      Stands p behaviour w i n (.skipped n)
  | passed (hsettled : i ∈ w.schedule.settled) (hdoomed : i ∉ w.doomed)
      (hleaf : p.graph.tree.isLeaf i = false) : Stands p behaviour w i n (.ahead n)
  | ended {step : EffectiveStep} (hsettled : i ∈ w.schedule.settled) (hdoomed : i ∉ w.doomed)
      (hleaf : p.graph.tree.isLeaf i = true)
      (hstep : p.graph.tree.resolve? i p.defaults = some step) :
      Stands p behaviour w i n (.ended n step (Attempt.all step (behaviour step)))

/-- What holds of the records and the events at every moment of a walk with a driver that behaves
the same way every time. -/
structure Traced (p : WalkPlan) (behaviour : EffectiveStep → UInt32 → AttemptEnd) (w : Walk) :
    Prop where
  names : w.data.job.steps.map (·.name) = (Job.ofGraph p.graph).steps.map (·.name)
  foreign : ∀ name, (∀ i, p.graph.tree.isStep i = true → name ≠ p.graph.name i) →
    told w.data.events name = []
  stands : ∀ i n, p.graph.tree.isStep i = true → p.graph.tree.node? i = some n →
    Stands p behaviour w i n (account p.graph w.data i)

section Traced

variable {f : Flow} {p : WalkPlan} {behaviour : EffectiveStep → UInt32 → AttemptEnd} {now : Time}
  {w w' : Walk} {i k : Nat} {n : TreeNode} {a : Account}

/-- A step that is where it was stands as before. -/
lemma Stands.of_same (h : Stands p behaviour w i n a)
    (hsettled : i ∈ w'.schedule.settled ↔ i ∈ w.schedule.settled)
    (hrunning : ∀ r : Running, r.node = i → (r ∈ w'.running ↔ r ∈ w.running))
    (hdoomed : i ∈ w.schedule.settled → (i ∈ w'.doomed ↔ i ∈ w.doomed)) :
    Stands p behaviour w' i n a := by
  cases h with
  | ahead hs hr =>
    refine .ahead (fun hi => hs (hsettled.1 hi)) ?_
    intro hi
    obtain ⟨r, hmem, hnode⟩ := List.mem_map.1 hi
    exact hr (List.mem_map.2 ⟨r, (hrunning r hnode).1 hmem, hnode⟩)
  | running hr hnode hretries => exact .running ((hrunning _ hnode).2 hr) hnode hretries
  | skipped hs hd => exact .skipped (hsettled.2 hs) ((hdoomed hs).2 hd)
  | passed hs hd hleaf => exact .passed (hsettled.2 hs) (fun hi => hd ((hdoomed hs).1 hi)) hleaf
  | ended hs hd hleaf hstep =>
    exact .ended (hsettled.2 hs) (fun hi => hd ((hdoomed hs).1 hi)) hleaf hstep

/-- Nothing happened yet to a step that was not entered. -/
lemma Stands.eq_ahead (h : Stands p behaviour w i n a) (hs : i ∉ w.schedule.settled)
    (hr : i ∉ w.runningNodes) : a = .ahead n := by
  cases h with
  | ahead => rfl
  | running hmem hnode => exact absurd (hnode ▸ mem_runningNodes hmem) hr
  | skipped hsettled => exact absurd hsettled hs
  | passed => rfl
  | ended hsettled => exact absurd hsettled hs

/-- The step of an attempt in progress was started and is under way. -/
lemma Stands.eq_running (hplaced : Placed p w) {r : Running} (hr : r ∈ w.running)
    (h : Stands p behaviour w r.node n a) :
    ∃ retries, Underway behaviour r retries ∧ a = .running n r.step retries := by
  have hnode := mem_runningNodes hr
  have hs : r.node ∉ w.schedule.settled := hplaced.not_settled (List.mem_append_right _ hnode)
  cases h with
  | ahead _ hrunning => exact absurd hnode hrunning
  | @running r' retries hr' hsame hretries =>
    obtain rfl : r' = r := List.inj_on_of_nodup_map hplaced.running_nodup.1 hr' hr hsame
    exact ⟨retries, hretries, rfl⟩
  | skipped hsettled => exact absurd hsettled hs
  | passed hsettled => exact absurd hsettled hs
  | ended hsettled => exact absurd hsettled hs

/-- A change at one node. -/
lemma Traced.change (h : Traced p behaviour w) (k : Nat) (hk : p.graph.tree.isStep k = true)
    (hdata : SameBut p.graph k w.data w'.data)
    (hself : ∀ n, p.graph.tree.node? k = some n →
      Stands p behaviour w' k n (account p.graph w'.data k))
    (hsettled : ∀ i, i ≠ k → (i ∈ w'.schedule.settled ↔ i ∈ w.schedule.settled))
    (hrunning : ∀ r : Running, r.node ≠ k → (r ∈ w'.running ↔ r ∈ w.running))
    (hdoomed : ∀ i, i ∈ w.schedule.settled → (i ∈ w'.doomed ↔ i ∈ w.doomed)) :
    Traced p behaviour w' := by
  refine ⟨hdata.names.trans h.names, ?_, ?_⟩
  · intro name hname
    rw [hdata.told name (hname k hk)]
    exact h.foreign name hname
  · intro i n hi hn
    by_cases hik : i = k
    · subst hik
      exact hself n hn
    · rw [hdata.account i hi hik]
      refine (h.stands i n hi hn).of_same (hsettled i hik) ?_ (hdoomed i)
      rintro r rfl
      exact hrunning r hik

/-- A change at one node that is noted in its record and told. -/
lemma Traced.note (hg : f.compile = .ok p.graph) (h : Traced p behaviour w)
    (hk : p.graph.tree.isStep k = true) (change : Time → StepRecord → StepRecord) (e : Event)
    (hname : ∀ now r, (change now r).name = r.name)
    (huntimed : ∀ now r, (change now r).untimed = (change 0 r.untimed).untimed)
    (he : e.step? = some (p.graph.name k)) (hdata : w'.data = noted p.graph k change e w.data)
    (hself : ∀ n, p.graph.tree.node? k = some n →
      ∃ r events, account p.graph w.data k = (some r, events) ∧
        Stands p behaviour w' k n (some (change 0 r).untimed, events ++ [e]))
    (hsettled : ∀ i, i ≠ k → (i ∈ w'.schedule.settled ↔ i ∈ w.schedule.settled))
    (hrunning : ∀ r : Running, r.node ≠ k → (r ∈ w'.running ↔ r ∈ w.running))
    (hdoomed : ∀ i, i ∈ w.schedule.settled → (i ∈ w'.doomed ↔ i ∈ w.doomed)) :
    Traced p behaviour w' := by
  refine h.change k hk ?_ ?_ hsettled hrunning hdoomed
  · rw [hdata]
    exact sameBut_noted hg hk change e hname he
  · intro n hn
    obtain ⟨r, events, haccount, hstands⟩ := hself n hn
    rw [hdata, account_noted hg hk change e hname huntimed he haccount]
    exact hstands

/-- No step is changed. -/
lemma Traced.silent (h : Traced p behaviour w) (hjob : w'.data.job = w.data.job)
    (hevents : w'.data.events = w.data.events)
    (hsettled : ∀ i, p.graph.tree.isStep i = true →
      (i ∈ w'.schedule.settled ↔ i ∈ w.schedule.settled))
    (hrunning : w'.running = w.running) (hdoomed : w'.doomed = w.doomed) :
    Traced p behaviour w' := by
  refine ⟨?_, ?_, ?_⟩
  · rw [hjob]
    exact h.names
  · rw [hevents]
    exact h.foreign
  · intro i n hi hn
    rw [account, hjob, hevents]
    refine (h.stands i n hi hn).of_same (hsettled i hi) ?_ ?_
    · intro r _
      rw [hrunning]
    · intro _
      rw [hdoomed]

theorem traced_fresh (hg : f.compile = .ok p.graph) (now : Time) :
    Traced p behaviour (fresh p.graph now) := by
  refine ⟨rfl, fun name _ => rfl, ?_⟩
  intro i n hi hn
  obtain ⟨n', hn', hrecord⟩ := Job.step?_ofGraph hg hi
  cases hn'.symm.trans hn
  have haccount : account p.graph (fresh p.graph now).data i = .ahead n := by
    show (Option.map _ ((Job.ofGraph p.graph).step? (p.graph.name i)), _) = _
    rw [hrecord]
    rfl
  rw [haccount]
  exact .ahead List.not_mem_nil List.not_mem_nil

/-! ### Steps -/

lemma Traced.enter (hg : f.compile = .ok p.graph) (hplaced : Placed p w) (hrecorded : Recorded p w)
    (h : Traced p behaviour w) {schedule : Schedule} (hpop : w.schedule.pop = some (k, schedule)) :
    Traced p behaviour (Walk.enter p.graph k { w with schedule }) := by
  obtain ⟨hsettled, hk, hr⟩ := hplaced.fresh_of_pop hpop
  have hv : k ∉ schedule.settled := hsettled ▸ hk
  have hother : ∀ i, i ≠ k →
      (i ∈ (schedule.settle p.graph k).1.settled ↔ i ∈ w.schedule.settled) := by
    intro i hik
    rw [Schedule.settle_settled, if_neg hv, List.mem_cons, or_iff_right hik, hsettled]
  have hself : k ∈ (schedule.settle p.graph k).1.settled := by
    rw [Schedule.settle_settled, if_neg hv]
    exact List.mem_cons_self
  unfold Walk.enter
  split
  · -- a doomed node is skipped and settled
    rename_i hdoomed
    have hstep := hrecorded.isStep_of_doomed hg hdoomed
    refine h.note hg hstep (fun now => StepRecord.skip now failedBefore)
      (.stepSkipped (p.graph.name k) failedBefore) (fun _ _ => rfl) (fun _ _ => rfl) rfl rfl
      ?_ hother (fun r _ => Iff.rfl) (fun i _ => Iff.rfl)
    intro n hn
    refine ⟨.ofNode n, [], (h.stands k n hstep hn).eq_ahead hk hr, ?_⟩
    rw [name_eq hn]
    exact .skipped hself hdoomed
  · rename_i hdoomed
    split
    · -- a leaf waits
      refine h.silent rfl rfl ?_ rfl rfl
      intro i _
      show i ∈ schedule.settled ↔ _
      rw [hsettled]
    · -- all other nodes are settled at once
      rename_i hleaf
      by_cases hstep : p.graph.tree.isStep k = true
      · refine h.change k hstep (.of_eq rfl rfl) ?_ hother (fun r _ => Iff.rfl) (fun i _ => Iff.rfl)
        intro n hn
        show Stands _ _ _ _ _ (account p.graph w.data k)
        rw [(h.stands k n hstep hn).eq_ahead hk hr]
        exact .passed hself hdoomed (by simpa using hleaf)
      · refine h.silent rfl rfl ?_ rfl rfl
        rintro i hi
        exact hother i fun hik => hstep (hik ▸ hi)

lemma Traced.start (hg : f.compile = .ok p.graph) (hplaced : Placed p w)
    (h : Traced p behaviour w) {rest : List Nat} (hwaiting : w.waiting = k :: rest) :
    Traced p behaviour ({ w with waiting := rest }.startLeaf p k) := by
  obtain ⟨hleaf, hk, hr⟩ := hplaced.fresh_of_waiting hwaiting
  obtain ⟨n, step, hn, hstep, hname, -⟩ := resolve_of_leaf hleaf p.defaults
  have hstep_k := Graph.isStep_of_isLeaf hleaf
  have hstarted : Event.step? (.stepStarted step.name step.path) = some (p.graph.name k) :=
    congrArg some (hname.trans (name_eq hn).symm)
  rw [startLeaf_eq hstep]
  refine h.note hg hstep_k StepRecord.start (.stepStarted step.name step.path) (fun _ _ => rfl)
    (fun _ _ => rfl) hstarted rfl ?_ (fun i _ => Iff.rfl) ?_ (fun i _ => Iff.rfl)
  · intro n' hn'
    refine ⟨.ofNode n', [], (h.stands k n' hstep_k hn').eq_ahead hk hr, ?_⟩
    have hmem : ({ node := k, step } : Running) ∈ w.running ++ [{ node := k, step }] := by simp
    exact .running hmem rfl (underway_first k step)
  · intro r hrk
    show r ∈ w.running ++ [{ node := k, step }] ↔ r ∈ w.running
    rw [List.mem_append, List.mem_singleton, or_iff_left]
    rintro rfl
    exact hrk rfl

lemma Traced.retry (hg : f.compile = .ok p.graph) (hplaced : Placed p w)
    (h : Traced p behaviour w) {r : Running} {e : AttemptEnd} (hr : r ∈ w.running)
    (he : Driver.of behaviour r.step r.attempt e)
    (hagain : Attempt.isRetried r.step r.attempt e = true) :
    Traced p behaviour (w.retryLeaf r) := by
  have hleaf := hplaced.leaf _ (List.mem_append_right _ (mem_runningNodes hr))
  have hstep := Graph.isStep_of_isLeaf hleaf
  have hname : r.step.name = p.graph.name r.node := hplaced.step_name hr
  refine h.note hg hstep (fun _ r => r) (Attempt.retrying r.step (r.attempt + 1)) (fun _ _ => rfl)
    (fun _ _ => rfl) (congrArg some hname) (noted_same p.graph r.node _ w.data).symm ?_
    (fun i _ => Iff.rfl) ?_ (fun i _ => Iff.rfl)
  · intro n hn
    obtain ⟨retries, hretries, haccount⟩ := (h.stands r.node n hstep hn).eq_running hplaced hr
    refine ⟨_, _, haccount, ?_⟩
    have hmem : { r with attempt := r.attempt + 1 } ∈ (w.retryLeaf r).running :=
      List.mem_map.2 ⟨r, hr, if_pos rfl⟩
    exact .running (r := { r with attempt := r.attempt + 1 }) hmem rfl (hretries.retry he hagain)
  · exact fun s hs => mem_running_retryLeaf hs

lemma Traced.finish (hg : f.compile = .ok p.graph) (hplaced : Placed p w)
    (h : Traced p behaviour w) {r : Running} {e : AttemptEnd} (hr : r ∈ w.running)
    (he : Driver.of behaviour r.step r.attempt e)
    (hlast : Attempt.isRetried r.step r.attempt e = false) :
    Traced p behaviour (w.finishLeaf p.graph r (Attempt.outcome r.step r.attempt e)) := by
  have hsound := Graph.compile_sound hg
  have hmem : r.node ∈ w.waiting ++ w.runningNodes :=
    List.mem_append_right _ (mem_runningNodes hr)
  have hleaf := hplaced.leaf _ hmem
  have hstep := Graph.isStep_of_isLeaf hleaf
  have hk := hplaced.not_settled hmem
  obtain ⟨o, ho⟩ : ∃ o, o = Attempt.outcome r.step r.attempt e := ⟨_, rfl⟩
  rw [← ho]
  refine h.note hg hstep (fun now => StepRecord.finish now o.status o.attempts o.error)
    (.stepFinished (p.graph.name r.node) o.status o.attempts o.error) (fun _ _ => rfl)
    (fun _ _ => rfl) rfl rfl ?_ ?_ ?_ ?_
  · intro n hn
    obtain ⟨retries, hretries, haccount⟩ := (h.stands r.node n hstep hn).eq_running hplaced hr
    refine ⟨_, _, haccount, ?_⟩
    obtain ⟨hall, hnoted⟩ := hretries.finish he hlast
    obtain ⟨hstatus, hattempts, herror⟩ : o.status = _ ∧ o.attempts = _ ∧ o.error = _ := by
      simpa only [← ho, Attempt.noted, Prod.mk.injEq] using hnoted
    have hself : r.node ∈ (w.finishLeaf p.graph r o).schedule.settled :=
      (mem_settle hk).2 (.inl rfl)
    have hdoomed : r.node ∉ (w.finishLeaf p.graph r o).doomed := by
      intro hd
      rcases List.mem_append.1 hd with hd | hd
      · exact hplaced.alive _ hmem hd
      · exact hsound.irrefl _ (before_of_mem_dooms hsound hd)
    rw [name_eq hn, hall, hstatus, hattempts, herror]
    exact .ended hself hdoomed hleaf (hplaced.resolved r hr)
  · intro i hik
    exact (mem_settle hk).trans (or_iff_right hik)
  · exact fun s hs => mem_running_finishLeaf.trans (and_iff_left hs)
  · -- what is settled is not behind a leaf that was running
    intro i hi
    refine List.mem_append.trans (or_iff_left ?_)
    intro hd
    exact hplaced.not_before hmem (List.mem_append_left _ hi) (before_of_mem_dooms hsound hd)

/-- **Every step** of a walk with a driver that behaves the same way every time. -/
theorem Traced.step (hg : f.compile = .ok p.graph) (hplaced : Placed p w) (hrecorded : Recorded p w)
    (h : Traced p behaviour w) (hstep : Step p (.of behaviour) w w') : Traced p behaviour w' := by
  cases hstep with
  | tick => exact h.silent rfl rfl (fun _ _ => Iff.rfl) rfl rfl
  | enter hpop => exact h.enter hg hplaced hrecorded hpop
  | start _ hwaiting _ => exact h.start hg hplaced hwaiting
  | retry hr he hagain => exact h.retry hg hplaced hr he hagain
  | finish _ _ hr he hlast => exact h.finish hg hplaced hr he hlast

theorem steps_traced (hg : f.compile = .ok p.graph)
    (h : Steps p (.of behaviour) (fresh p.graph now) w) : Traced p behaviour w := by
  induction h with
  | refl => exact traced_fresh hg now
  | tail hsteps hstep ih =>
    obtain ⟨hplaced, hrecorded⟩ := steps_recorded hg hsteps
    exact ih.step hg hplaced hrecorded hstep

/-! ### At the end -/

/-- What is kept of the step at a node when the walk is over. -/
def finalAccount (p : WalkPlan) (behaviour : EffectiveStep → UInt32 → AttemptEnd)
    (doomed : List Nat) (i : Nat) (n : TreeNode) : Account :=
  if i ∈ doomed then .skipped n
  else
    match p.graph.tree.isLeaf i, p.graph.tree.resolve? i p.defaults with
    | true, some step => .ended n step (Attempt.all step (behaviour step))
    | _, _ => .ahead n

/-- At the end, whether a step is doomed says all that is kept of it. -/
theorem Traced.account_eq (hg : p.graph.Sound) (hplaced : Placed p w) (h : Traced p behaviour w)
    (hover : Over w) (hi : p.graph.tree.isStep i = true) (hlt : i < p.graph.size)
    (hn : p.graph.tree.node? i = some n) :
    account p.graph w.data i = finalAccount p behaviour w.doomed i n := by
  have hsettled := (hplaced.all_settled hg hover).1 i hlt
  have hstands := h.stands i n hi hn
  unfold finalAccount
  revert hstands
  generalize account p.graph w.data i = a
  intro hstands
  cases hstands with
  | ahead hs => exact absurd hsettled hs
  | running hr =>
    rw [hover.running] at hr
    cases hr
  | skipped _ hd => rw [if_pos hd]
  | passed _ hd hleaf => rw [if_neg hd, hleaf]
  | ended _ hd hleaf hstep => rw [if_neg hd, hleaf, hstep]

end Traced

end Walk

end StepFlow
