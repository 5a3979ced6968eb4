import StepFlow.Proofs.Walk.Places

/-!
The statuses of the leaves of a walk. The status of a leaf says where the leaf is: a leaf is skipped
when it is settled and doomed, and has ended in some other way when it is settled and not doomed.
Just the nodes behind a failure that is not allowed are doomed, unless they are to be run whatever
happened; as all that is before a node is settled when the node is taken, it is known by then
whether the node is doomed.
-/

namespace StepFlow

/-! ### Who is to be skipped -/

/-- The node is to be run whatever happened. -/
def Graph.isPost (g : Graph) (i : Nat) : Bool := ((g.tree.node? i).map (·.post)).getD false

/-- A failure of the node is no harm. -/
def Graph.allowsFailure (g : Graph) (i : Nat) : Bool :=
  ((g.tree.node? i).map (·.allowFailure)).getD false

/-- A step with this status was tried and is over. -/
def StepStatus.Tried (s : StepStatus) : Prop := s = .success ∨ s = .failure ∨ s = .timeout

/-- The leaf failed or took too long, without leave to do so. -/
def Job.Blocks (g : Graph) (j : Job) (i : Nat) : Prop :=
  g.tree.isLeaf i = true ∧ (j.stepStatus g i = some .failure ∨ j.stepStatus g i = some .timeout) ∧
    g.allowsFailure i = false

/-- The node may not run, because of a leaf before it. -/
def Job.Dooms (g : Graph) (j : Job) (i : Nat) : Prop :=
  g.isPost i = false ∧ ∃ k, j.Blocks g k ∧ g.Before k i

namespace Walk

section Skips

variable {f : Flow} {g : Graph} {j j' : Job} {i k : Nat}

/-- Nothing is before the root. -/
lemma not_before_zero (h : f.compile = .ok g) : ¬ g.Before k 0 := by
  obtain ⟨-, -, hroot, -⟩ := Graph.compile_eq_ok h
  intro hk
  rcases Graph.before_iff.1 hk with hp | ⟨p, hp, -⟩
  · rw [hroot] at hp
    cases hp
  · rw [hroot] at hp
    cases hp

lemma not_failed {o : Option StepStatus} {s : StepStatus} (ho : o = some s)
    (hs : s.isFailure = false) : ¬ (o = some .failure ∨ o = some .timeout) := by
  rintro (rfl | rfl)
  · cases ho
    cases hs
  · cases ho
    cases hs

/-- A change of the status of a leaf that is no failure before and after dooms nothing. -/
lemma dooms_congr (s s' : StepStatus) (hother : ∀ l, g.tree.isLeaf l = true → l ≠ k →
      j'.stepStatus g l = j.stepStatus g l)
    (hbefore : g.tree.isLeaf k = true → j.stepStatus g k = some s)
    (hafter : g.tree.isLeaf k = true → j'.stepStatus g k = some s') (hs : s.isFailure = false)
    (hs' : s'.isFailure = false) : j'.Dooms g i ↔ j.Dooms g i := by
  refine and_congr_right fun _ => exists_congr fun l => and_congr_left ?_
  intro _
  refine and_congr_right fun hl => and_congr_left ?_
  intro _
  by_cases hlk : l = k
  · subst hlk
    exact iff_of_false (not_failed (hafter hl) hs') (not_failed (hbefore hl) hs)
  · rw [hother l hl hlk]

end Skips

/-! ### Where a leaf is -/

/-- What the status of a leaf says about its place. -/
def Fits (w : Walk) (i : Nat) : StepStatus → Prop
  | .pending => i ∉ w.schedule.settled ∧ i ∉ w.runningNodes
  | .running => i ∈ w.runningNodes
  | .skipped => i ∈ w.schedule.settled ∧ i ∈ w.doomed
  | _ => i ∈ w.schedule.settled ∧ i ∉ w.doomed

/-- What holds of the records at every moment of a walk. -/
structure Recorded (p : WalkPlan) (w : Walk) : Prop where
  job : w.data.job.status = .running
  fits : ∀ i, p.graph.tree.isLeaf i = true →
    ∃ s, w.data.job.stepStatus p.graph i = some s ∧ w.Fits i s
  doomed : ∀ i, i ∈ w.doomed ↔ w.data.job.Dooms p.graph i

section Recorded

variable {f : Flow} {p : WalkPlan} {w w' : Walk} {i k : Nat}

/-- A leaf that is where it was fits its status as before. -/
lemma Fits.of_same {s : StepStatus} (h : w.Fits i s)
    (hsettled : i ∈ w'.schedule.settled ↔ i ∈ w.schedule.settled)
    (hrunning : i ∈ w'.runningNodes ↔ i ∈ w.runningNodes)
    (hdoomed : i ∈ w.schedule.settled → (i ∈ w'.doomed ↔ i ∈ w.doomed)) : w'.Fits i s := by
  cases s with
  | pending => exact ⟨fun hi => h.1 (hsettled.1 hi), fun hi => h.2 (hrunning.1 hi)⟩
  | running => exact hrunning.2 h
  | skipped => exact ⟨hsettled.2 h.1, (hdoomed h.1).2 h.2⟩
  | success => exact ⟨hsettled.2 h.1, fun hi => h.2 ((hdoomed h.1).1 hi)⟩
  | failure => exact ⟨hsettled.2 h.1, fun hi => h.2 ((hdoomed h.1).1 hi)⟩
  | timeout => exact ⟨hsettled.2 h.1, fun hi => h.2 ((hdoomed h.1).1 hi)⟩

/-- A change at one node. -/
lemma Recorded.change (h : Recorded p w) (k : Nat) (hjob : w'.data.job.status = .running)
    (hself : p.graph.tree.isLeaf k = true →
      ∃ s, w'.data.job.stepStatus p.graph k = some s ∧ w'.Fits k s)
    (hstatus : ∀ i, p.graph.tree.isLeaf i = true → i ≠ k →
      w'.data.job.stepStatus p.graph i = w.data.job.stepStatus p.graph i)
    (hsettled : ∀ i, i ≠ k → (i ∈ w'.schedule.settled ↔ i ∈ w.schedule.settled))
    (hrunning : ∀ i, i ≠ k → (i ∈ w'.runningNodes ↔ i ∈ w.runningNodes))
    (hkept : ∀ i, i ∈ w.schedule.settled → (i ∈ w'.doomed ↔ i ∈ w.doomed))
    (hdoomed : ∀ i, i ∈ w'.doomed ↔ w'.data.job.Dooms p.graph i) : Recorded p w' := by
  refine ⟨hjob, ?_, hdoomed⟩
  intro i hi
  by_cases hik : i = k
  · subst hik
    exact hself hi
  · obtain ⟨s, hs, hfits⟩ := h.fits i hi
    refine ⟨s, (hstatus i hi hik).trans hs, ?_⟩
    exact hfits.of_same (hsettled i hik) (hrunning i hik) (hkept i)

lemma Recorded.status_ne_none (h : Recorded p w) (hi : p.graph.tree.isLeaf i = true) :
    w.data.job.stepStatus p.graph i ≠ none := by
  obtain ⟨s, hs, -⟩ := h.fits i hi
  simp [hs]

/-- A leaf that is ready or waits is pending. -/
lemma Recorded.status_of_waiting (h : Recorded p w) (hi : p.graph.tree.isLeaf i = true)
    (hs : i ∉ w.schedule.settled) (hr : i ∉ w.runningNodes) :
    w.data.job.stepStatus p.graph i = some .pending := by
  obtain ⟨s, hstatus, hfits⟩ := h.fits i hi
  cases s with
  | pending => exact hstatus
  | running => exact absurd hfits hr
  | success => exact absurd hfits.1 hs
  | failure => exact absurd hfits.1 hs
  | skipped => exact absurd hfits.1 hs
  | timeout => exact absurd hfits.1 hs

lemma Recorded.status_of_running (h : Recorded p w) (hplaced : Placed p w)
    (hr : i ∈ w.runningNodes) : w.data.job.stepStatus p.graph i = some .running := by
  have hmem := List.mem_append_right w.waiting hr
  have hs := hplaced.not_settled hmem
  obtain ⟨s, hstatus, hfits⟩ := h.fits i (hplaced.leaf i hmem)
  cases s with
  | running => exact hstatus
  | pending => exact absurd hr hfits.2
  | success => exact absurd hfits.1 hs
  | failure => exact absurd hfits.1 hs
  | skipped => exact absurd hfits.1 hs
  | timeout => exact absurd hfits.1 hs

theorem recorded_fresh (hg : f.compile = .ok p.graph) (now : Time) :
    Recorded p (fresh p.graph now) := by
  have hstatus : ∀ i, p.graph.tree.isLeaf i = true →
      (fresh p.graph now).data.job.stepStatus p.graph i = some .pending := by
    intro i hi
    exact Job.stepStatus_ofGraph hg (Graph.isStep_of_isLeaf hi)
  refine ⟨rfl, fun i hi => ⟨_, hstatus i hi, ?_⟩, ?_⟩
  · exact ⟨List.not_mem_nil, List.not_mem_nil⟩
  · intro i
    refine iff_of_false (fun hi => nomatch hi) ?_
    rintro ⟨-, k, ⟨hk, hfailed, -⟩, -⟩
    rw [hstatus k hk] at hfailed
    simp at hfailed

/-! ### Steps -/

/-- The status of a leaf after the record of a node was changed. -/
lemma stepStatus_record (hg : f.compile = .ok p.graph) (hi : p.graph.tree.isLeaf i = true)
    (hk : p.graph.tree.isStep k = true) {change : Time → StepRecord → StepRecord}
    {s : StepStatus} (hname : ∀ now r, (change now r).name = r.name)
    (hstatus : ∀ now r, (change now r).status = s)
    (hsome : w.data.job.stepStatus p.graph i ≠ none) :
    (w.record p.graph k change).data.job.stepStatus p.graph i =
      if i = k then some s else w.data.job.stepStatus p.graph i := by
  by_cases hik : i = k
  · subst hik
    rw [if_pos rfl]
    exact Job.stepStatus_updateNode_self hg hk (hname _) (hstatus _) hsome
  · rw [if_neg hik]
    exact Job.stepStatus_updateNode_of_ne hg (Graph.isStep_of_isLeaf hi) hk (hname _) hik

lemma mem_settle {g : Graph} {v : Walk} (hk : k ∉ v.schedule.settled) :
    i ∈ (v.settle g k).schedule.settled ↔ i = k ∨ i ∈ v.schedule.settled := by
  show i ∈ (v.schedule.settle g k).1.settled ↔ _
  rw [Schedule.settle_settled, if_neg hk, List.mem_cons]

lemma stepStatus_skip (hg : f.compile = .ok p.graph) (h : Recorded p w)
    (hi : p.graph.tree.isLeaf i = true) (hk : p.graph.tree.isStep k = true) (reason : String) :
    (w.skip p.graph k reason).data.job.stepStatus p.graph i =
      if i = k then some .skipped else w.data.job.stepStatus p.graph i :=
  stepStatus_record hg hi hk (fun now r => StepRecord.skip_name now r reason)
    (fun now r => StepRecord.skip_status now r reason) (h.status_ne_none hi)

lemma stepStatus_startLeaf (hg : f.compile = .ok p.graph) (h : Recorded p w)
    (hi : p.graph.tree.isLeaf i = true) (hk : p.graph.tree.isLeaf k = true) :
    (w.startLeaf p k).data.job.stepStatus p.graph i =
      if i = k then some .running else w.data.job.stepStatus p.graph i := by
  obtain ⟨n, step, -, hstep, -⟩ := resolve_of_leaf hk p.defaults
  rw [startLeaf_eq hstep]
  exact stepStatus_record hg hi (Graph.isStep_of_isLeaf hk) (fun _ _ => rfl) (fun _ _ => rfl)
    (h.status_ne_none hi)

lemma stepStatus_finishLeaf (hg : f.compile = .ok p.graph) (h : Recorded p w)
    (hi : p.graph.tree.isLeaf i = true) {r : Running} (hr : p.graph.tree.isLeaf r.node = true)
    (o : Outcome) : (w.finishLeaf p.graph r o).data.job.stepStatus p.graph i =
      if i = r.node then some o.status else w.data.job.stepStatus p.graph i :=
  stepStatus_record (w := { w with running := w.running.filter fun s => s.node ≠ r.node }) hg hi
    (Graph.isStep_of_isLeaf hr)
    (fun now r => StepRecord.finish_name now r o.status o.attempts o.error)
    (fun now r => StepRecord.finish_status now r o.status o.attempts o.error) (h.status_ne_none hi)

/-- A node that is taken now was not taken before. -/
lemma Placed.fresh_of_pop (h : Placed p w) {schedule : Schedule}
    (hpop : w.schedule.pop = some (k, schedule)) :
    schedule.settled = w.schedule.settled ∧ k ∉ w.schedule.settled ∧ k ∉ w.runningNodes := by
  obtain ⟨hready, hsettled, -⟩ := Schedule.pop_eq_some hpop
  have htaken := h.counts.fresh k (hready ▸ List.mem_cons_self)
  refine ⟨hsettled, ?_, ?_⟩
  · intro hs
    exact htaken (List.mem_append_left _ hs)
  · intro hr
    exact htaken (List.mem_append_right _ (List.mem_append_right _ hr))

lemma Placed.fresh_of_waiting (h : Placed p w) {rest : List Nat}
    (hwaiting : w.waiting = k :: rest) :
    p.graph.tree.isLeaf k = true ∧ k ∉ w.schedule.settled ∧ k ∉ w.runningNodes := by
  have hk : k ∈ w.waiting := by simp [hwaiting]
  have hmem : k ∈ w.waiting ++ w.runningNodes := List.mem_append_left _ hk
  exact ⟨h.leaf k hmem, h.not_settled hmem, h.running_nodup.2 k hk⟩

lemma Recorded.isStep_of_doomed (hg : f.compile = .ok p.graph) (h : Recorded p w)
    (hk : k ∈ w.doomed) : p.graph.tree.isStep k = true := by
  obtain ⟨-, l, -, hbefore⟩ := (h.doomed k).1 hk
  refine (Graph.compile_isStep_iff hg).2 ⟨Nat.pos_of_ne_zero ?_, ?_⟩
  · intro hz
    exact not_before_zero hg (hz ▸ hbefore)
  · exact ((Graph.compile_sound hg).lt_size_of_before hbefore).2

lemma Recorded.enter (hg : f.compile = .ok p.graph) (hplaced : Placed p w) (h : Recorded p w)
    {schedule : Schedule} (hpop : w.schedule.pop = some (k, schedule)) :
    Recorded p (Walk.enter p.graph k { w with schedule }) := by
  obtain ⟨hsettled, hk, hr⟩ := hplaced.fresh_of_pop hpop
  have hv : k ∉ schedule.settled := hsettled ▸ hk
  have hsame : ∀ i, i ∈ schedule.settled ↔ i ∈ w.schedule.settled := fun i => by rw [hsettled]
  unfold Walk.enter
  split
  · -- a doomed node is skipped and settled
    rename_i hdoomed
    have hself : ∀ i, p.graph.tree.isLeaf i = true →
        (w.skip p.graph k failedBefore).data.job.stepStatus p.graph i =
          if i = k then some .skipped else w.data.job.stepStatus p.graph i := fun i hi =>
      stepStatus_skip hg h hi (h.isStep_of_doomed hg hdoomed) _
    refine h.change k ?_ (fun hleaf => ⟨.skipped, ?_, ?_⟩) ?_ ?_
      (fun i hik => Iff.rfl) (fun i hi => Iff.rfl) ?_
    · exact Job.updateNode_status.trans h.job
    · exact (hself k hleaf).trans (if_pos rfl)
    · exact ⟨(mem_settle hv).2 (.inl rfl), hdoomed⟩
    · intro i hi hik
      exact (hself i hi).trans (if_neg hik)
    · intro i hik
      exact (mem_settle hv).trans ((or_iff_right hik).trans (hsame i))
    · intro i
      refine (h.doomed i).trans (dooms_congr .pending .skipped (k := k) ?_ ?_ ?_ rfl rfl).symm
      · intro l hl hlk
        exact (hself l hl).trans (if_neg hlk)
      · intro hleaf
        exact h.status_of_waiting hleaf hk hr
      · intro hleaf
        exact (hself k hleaf).trans (if_pos rfl)
  · split
    · -- a leaf waits
      refine h.change k h.job ?_ (fun i hi hik => rfl) (fun i hik => hsame i)
        (fun i hik => Iff.rfl) (fun i hi => Iff.rfl) h.doomed
      intro hleaf
      exact ⟨.pending, h.status_of_waiting hleaf hk hr, hv, hr⟩
    · -- all other nodes are settled at once
      rename_i hleaf
      refine h.change k h.job (fun hl => absurd hl hleaf) (fun i hi hik => rfl) ?_
        (fun i hik => Iff.rfl) (fun i hi => Iff.rfl) h.doomed
      intro i hik
      exact (mem_settle hv).trans ((or_iff_right hik).trans (hsame i))

lemma Recorded.start (hg : f.compile = .ok p.graph) (hplaced : Placed p w) (h : Recorded p w)
    {rest : List Nat} (hwaiting : w.waiting = k :: rest) :
    Recorded p ({ w with waiting := rest }.startLeaf p k) := by
  obtain ⟨hleaf, hk, hr⟩ := hplaced.fresh_of_waiting hwaiting
  obtain ⟨n, step, -, hstep, -⟩ := resolve_of_leaf hleaf p.defaults
  have hself : ∀ i, p.graph.tree.isLeaf i = true →
      (w.startLeaf p k).data.job.stepStatus p.graph i =
        if i = k then some .running else w.data.job.stepStatus p.graph i := fun i hi =>
    stepStatus_startLeaf hg h hi hleaf
  have hnodes : ∀ i, i ∈ ({ w with waiting := rest }.startLeaf p k).runningNodes ↔
      i ∈ w.runningNodes ∨ i = k := by
    intro i
    rw [startLeaf_eq hstep]
    simp [runningNodes]
  rw [startLeaf_eq hstep] at hnodes hself ⊢
  refine h.change k ?_ (fun _ => ⟨.running, ?_, ?_⟩) ?_ (fun i hik => Iff.rfl)
    ?_ (fun i hi => Iff.rfl) ?_
  · exact Job.updateNode_status.trans h.job
  · exact (hself k hleaf).trans (if_pos rfl)
  · exact (hnodes k).2 (.inr rfl)
  · intro i hi hik
    exact (hself i hi).trans (if_neg hik)
  · intro i hik
    rw [hnodes, or_iff_left hik]
  · intro i
    refine (h.doomed i).trans (dooms_congr .pending .running (k := k) ?_ ?_ ?_ rfl rfl).symm
    · intro l hl hlk
      exact (hself l hl).trans (if_neg hlk)
    · intro _
      exact h.status_of_waiting hleaf hk hr
    · intro _
      exact (hself k hleaf).trans (if_pos rfl)

lemma Recorded.retry (h : Recorded p w) (r : Running) : Recorded p (w.retryLeaf r) := by
  have hnodes := retryLeaf_runningNodes (w := w) r
  refine ⟨h.job, ?_, h.doomed⟩
  intro i hi
  obtain ⟨s, hs, hfits⟩ := h.fits i hi
  refine ⟨s, hs, hfits.of_same Iff.rfl ?_ fun _ => Iff.rfl⟩
  rw [hnodes]

/-- Who is doomed after a leaf that was running ended with a status: who was doomed before, and who
is behind the leaf if it failed. -/
lemma dooms_ended {g : Graph} {j j' : Job} {s : StepStatus} (hk : g.tree.isLeaf k = true)
    (hother : ∀ l, g.tree.isLeaf l = true → l ≠ k → j'.stepStatus g l = j.stepStatus g l)
    (hbefore : j.stepStatus g k = some .running) (hafter : j'.stepStatus g k = some s) :
    j'.Dooms g i ↔ j.Dooms g i ∨ (s = .failure ∨ s = .timeout) ∧ g.allowsFailure k = false ∧
      g.Before k i ∧ g.isPost i = false := by
  constructor
  · rintro ⟨hpost, l, ⟨hl, hfailed, hallow⟩, hl_before⟩
    by_cases hlk : l = k
    · subst hlk
      rw [hafter, Option.some.injEq, Option.some.injEq] at hfailed
      exact .inr ⟨hfailed, hallow, hl_before, hpost⟩
    · rw [hother l hl hlk] at hfailed
      exact .inl ⟨hpost, l, ⟨hl, hfailed, hallow⟩, hl_before⟩
  · rintro (⟨hpost, l, ⟨hl, hfailed, hallow⟩, hl_before⟩ | ⟨hfailed, hallow, hk_before, hpost⟩)
    · have hlk : l ≠ k := by
        rintro rfl
        exact not_failed hbefore rfl hfailed
      rw [← hother l hl hlk] at hfailed
      exact ⟨hpost, l, ⟨hl, hfailed, hallow⟩, hl_before⟩
    · refine ⟨hpost, k, ⟨hk, ?_, hallow⟩, hk_before⟩
      rw [hafter, Option.some.injEq, Option.some.injEq]
      exact hfailed

/-- What the end of a leaf dooms. -/
lemma mem_dooms (hg : p.graph.Sound) (hk : p.graph.tree.isLeaf k = true) {status : StepStatus} :
    i ∈ dooms p.graph k status ↔ (status = .failure ∨ status = .timeout) ∧
      p.graph.allowsFailure k = false ∧ p.graph.Before k i ∧ p.graph.isPost i = false := by
  obtain ⟨n, hn, -⟩ := Tree.isStep_iff.1 (Graph.isStep_of_isLeaf hk)
  have hallow : p.graph.allowsFailure k = n.allowFailure := by simp [Graph.allowsFailure, hn]
  have hfailed : status.isFailure = true ↔ status = .failure ∨ status = .timeout := by
    cases status <;> simp [StepStatus.isFailure]
  unfold dooms
  rw [hn, hallow, ← hfailed]
  simp only [Bool.and_eq_true, Bool.not_eq_true']
  split
  · rename_i hblocks
    rw [List.mem_filter, Graph.mem_behind hg, Bool.not_eq_true']
    exact ⟨fun hi => ⟨hblocks.1, hblocks.2, hi⟩, fun hi => hi.2.2⟩
  · rename_i hblocks
    exact iff_of_false List.not_mem_nil fun hi => hblocks ⟨hi.1, hi.2.1⟩

lemma tried_ne {s : StepStatus} (h : s.Tried) :
    s ≠ .pending ∧ s ≠ .running ∧ s ≠ .skipped := by
  rcases h with rfl | rfl | rfl <;> simp

lemma outcome_tried (o : Outcome) : o.status.Tried := by
  cases o with
  | success => exact .inl rfl
  | failed => exact .inr (.inl rfl)
  | timedOut => exact .inr (.inr rfl)

lemma Recorded.finish (hg : f.compile = .ok p.graph) (hplaced : Placed p w) (h : Recorded p w)
    {r : Running} (hr : r ∈ w.running) (o : Outcome) :
    Recorded p (w.finishLeaf p.graph r o) := by
  have hsound := Graph.compile_sound hg
  have hnode := mem_runningNodes hr
  have hmem : r.node ∈ w.waiting ++ w.runningNodes := List.mem_append_right _ hnode
  have hleaf := hplaced.leaf _ hmem
  have hk := hplaced.not_settled hmem
  have hrunning := h.status_of_running hplaced hnode
  have hperm := runningNodes_perm hr hplaced.running_nodup.1
  have hstatus : ∀ i, p.graph.tree.isLeaf i = true →
      (w.finishLeaf p.graph r o).data.job.stepStatus p.graph i =
        if i = r.node then some o.status else w.data.job.stepStatus p.graph i := fun i hi =>
    stepStatus_finishLeaf hg h hi hleaf o
  have hdoomed : ∀ i, i ∈ (w.finishLeaf p.graph r o).doomed ↔
      i ∈ w.doomed ∨ i ∈ dooms p.graph r.node o.status := fun i => List.mem_append
  have hself : r.node ∉ (w.finishLeaf p.graph r o).doomed := by
    rw [hdoomed]
    rintro (hd | hd)
    · exact hplaced.alive _ hmem hd
    · exact hsound.irrefl _ (before_of_mem_dooms hsound hd)
  refine h.change r.node ?_ (fun _ => ⟨o.status, ?_, ?_⟩) ?_ ?_ ?_ ?_ ?_
  · exact Job.updateNode_status.trans h.job
  · exact (hstatus _ hleaf).trans (if_pos rfl)
  · have hsettled : r.node ∈ (w.finishLeaf p.graph r o).schedule.settled :=
      (mem_settle hk).2 (.inl rfl)
    rcases outcome_tried o with hs | hs | hs
    · rw [hs]
      exact ⟨hsettled, hself⟩
    · rw [hs]
      exact ⟨hsettled, hself⟩
    · rw [hs]
      exact ⟨hsettled, hself⟩
  · intro i hi hik
    exact (hstatus i hi).trans (if_neg hik)
  · intro i hik
    exact (mem_settle hk).trans (or_iff_right hik)
  · intro i hik
    rw [hperm.mem_iff, List.mem_cons, or_iff_right hik]
    rfl
  · -- what is settled is not behind a leaf that was running
    intro i hi
    rw [hdoomed]
    refine or_iff_left ?_
    intro hd
    exact hplaced.not_before hmem (List.mem_append_left _ hi) (before_of_mem_dooms hsound hd)
  · intro i
    rw [hdoomed, h.doomed, mem_dooms hsound hleaf]
    refine (dooms_ended hleaf ?_ hrunning ?_).symm
    · intro l hl hlr
      exact (hstatus l hl).trans (if_neg hlr)
    · exact (hstatus _ hleaf).trans (if_pos rfl)

theorem Recorded.step (hg : f.compile = .ok p.graph) {driver : Driver} (hplaced : Placed p w)
    (h : Recorded p w) (hstep : Step p driver w w') : Recorded p w' := by
  cases hstep with
  | tick => exact ⟨h.job, h.fits, h.doomed⟩
  | enter hpop => exact h.enter hg hplaced hpop
  | start _ hwaiting _ => exact h.start hg hplaced hwaiting
  | retry => exact h.retry _
  | finish _ _ hr => exact h.finish hg hplaced hr _

/-- **Every walk reached** from the walk of a new job has its nodes at their places and its records
in accord with them. -/
theorem steps_recorded (hg : f.compile = .ok p.graph) {driver : Driver} {now : Time}
    (h : Steps p driver (fresh p.graph now) w) : Placed p w ∧ Recorded p w :=
  h.induction (P := fun w => Placed p w ∧ Recorded p w)
    ⟨placed_fresh p now, recorded_fresh hg now⟩ fun _ _ hw hstep =>
    ⟨hw.1.step (Graph.compile_sound hg) hstep, hw.2.step hg hw.1 hstep⟩

/-! ### How a status moves -/

/-- A leaf is pending, then it runs and ends, or it is skipped. -/
inductive Moves : StepStatus → StepStatus → Prop
  | stay (s : StepStatus) : Moves s s
  | start : Moves .pending .running
  | skip : Moves .pending .skipped
  | finish {s : StepStatus} (h : s.Tried) : Moves .running s

/-- **In every step** the status of a leaf stays as it is or moves on. -/
theorem Recorded.moves (hg : f.compile = .ok p.graph) {driver : Driver} (hplaced : Placed p w)
    (h : Recorded p w) (hstep : Step p driver w w') (hi : p.graph.tree.isLeaf i = true) :
    ∃ s s', w.data.job.stepStatus p.graph i = some s ∧
      w'.data.job.stepStatus p.graph i = some s' ∧ Moves s s' := by
  obtain ⟨s, hs, -⟩ := h.fits i hi
  have hstay : w'.data.job.stepStatus p.graph i = w.data.job.stepStatus p.graph i →
      ∃ s s', w.data.job.stepStatus p.graph i = some s ∧
        w'.data.job.stepStatus p.graph i = some s' ∧ Moves s s' := fun heq =>
    ⟨s, s, hs, heq.trans hs, .stay s⟩
  cases hstep with
  | tick => exact hstay rfl
  | @enter k schedule hpop =>
    obtain ⟨-, hk, hr⟩ := hplaced.fresh_of_pop hpop
    by_cases hdoomed : k ∈ w.doomed
    · have hskip : (Walk.enter p.graph k { w with schedule }).data.job.stepStatus p.graph i =
          if i = k then some .skipped else w.data.job.stepStatus p.graph i := by
        rw [Walk.enter, if_pos hdoomed]
        exact stepStatus_skip hg h hi (h.isStep_of_doomed hg hdoomed) _
      by_cases hik : i = k
      · subst hik
        exact ⟨_, _, h.status_of_waiting hi hk hr, hskip.trans (if_pos rfl), .skip⟩
      · exact hstay (hskip.trans (if_neg hik))
    · refine hstay ?_
      rw [Walk.enter, if_neg hdoomed]
      split <;> rfl
  | @start k _ _ hwaiting _ =>
    obtain ⟨hleaf, hk, hr⟩ := hplaced.fresh_of_waiting hwaiting
    have hstart := stepStatus_startLeaf hg h hi hleaf
    have hdata : ∀ rest, ({ w with waiting := rest }.startLeaf p k).data =
        (w.startLeaf p k).data := fun rest => by rw [← startLeaf_waiting]
    rw [hdata]
    by_cases hik : i = k
    · subst hik
      exact ⟨_, _, h.status_of_waiting hi hk hr, hstart.trans (if_pos rfl), .start⟩
    · exact ⟨s, s, hs, (hstart.trans (if_neg hik)).trans hs, .stay s⟩
  | retry => exact hstay rfl
  | @finish r e _ _ hr =>
    have hnode := mem_runningNodes hr
    have hleaf := hplaced.leaf _ (List.mem_append_right _ hnode)
    have hfinish := stepStatus_finishLeaf hg h hi hleaf (Attempt.outcome r.step r.attempt e)
    by_cases hik : i = r.node
    · subst hik
      exact ⟨_, _, h.status_of_running hplaced hnode, hfinish.trans (if_pos rfl),
        .finish (outcome_tried _)⟩
    · exact hstay (hfinish.trans (if_neg hik))

end Recorded

end Walk

end StepFlow
