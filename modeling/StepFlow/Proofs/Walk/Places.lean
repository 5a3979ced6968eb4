import StepFlow.Proofs.Walk.Step

/-!
Where the nodes of a walk are. A node that was taken from the schedule is settled, or it is a leaf
that waits or is being run; so whatever is before a node that was taken is settled, and a node that
was taken is not doomed by what happens later.
-/

namespace StepFlow.Walk

/-! ### The nodes taken -/

/-- The nodes that are being run. -/
def runningNodes (w : Walk) : List Nat := w.running.map (·.node)

/-- The nodes that were taken from the schedule. -/
def taken (w : Walk) : List Nat := w.schedule.settled ++ (w.waiting ++ w.runningNodes)

/-- What holds of the places of the nodes at every moment of a walk. -/
structure Placed (p : WalkPlan) (w : Walk) : Prop where
  counts : Schedule.Counts p.graph w.taken w.schedule
  leaf : ∀ i ∈ w.waiting ++ w.runningNodes, p.graph.tree.isLeaf i = true
  resolved : ∀ r ∈ w.running, p.graph.tree.resolve? r.node p.defaults = some r.step
  alive : ∀ i ∈ w.waiting ++ w.runningNodes, i ∉ w.doomed

section Placed

variable {p : WalkPlan} {w : Walk} {i j : Nat}

lemma Placed.lt_size (h : Placed p w) (hi : i ∈ w.taken) : i < p.graph.size :=
  ((h.counts.offered i).1 (.inr hi)).1

/-- What is before a node that was taken is settled. -/
theorem Placed.settled_of_before (h : Placed p w) (hi : i ∈ w.schedule.ready ∨ i ∈ w.taken)
    (hj : p.graph.Before j i) : j ∈ w.schedule.settled :=
  h.counts.settled_of_before (List.subset_append_left _ _) hi hj

lemma Placed.not_settled (h : Placed p w) (hi : i ∈ w.waiting ++ w.runningNodes) :
    i ∉ w.schedule.settled := fun hs =>
  (List.nodup_append.1 h.counts.nodup).2.2 i hs i hi rfl

lemma Placed.running_nodup (h : Placed p w) :
    w.runningNodes.Nodup ∧ ∀ i ∈ w.waiting, i ∉ w.runningNodes := by
  obtain ⟨-, hopen, -⟩ := List.nodup_append.1 h.counts.nodup
  obtain ⟨-, hrunning, hdisjoint⟩ := List.nodup_append.1 hopen
  exact ⟨hrunning, fun i hi hr => hdisjoint i hi i hr rfl⟩

/-- No node that was taken is behind one that waits or is being run. -/
lemma Placed.not_before (h : Placed p w) (hi : i ∈ w.waiting ++ w.runningNodes)
    (hj : j ∈ w.taken) : ¬ p.graph.Before i j := fun hij =>
  h.not_settled hi (h.settled_of_before (.inr hj) hij)

lemma mem_runningNodes {r : Running} (hr : r ∈ w.running) : r.node ∈ w.runningNodes :=
  List.mem_map_of_mem hr

lemma resolve_of_leaf {t : Tree} (hi : t.isLeaf i = true) (d : StepDefaults) :
    ∃ n step, t.node? i = some n ∧ t.resolve? i d = some step ∧ step.name = n.name ∧
      step.path = n.path.text := by
  obtain ⟨n, hn, -⟩ := Tree.isStep_iff.1 (Graph.isStep_of_isLeaf hi)
  refine ⟨n, .ofChain d n (t.chain i), hn, ?_, rfl, rfl⟩
  rw [Tree.resolve?, hn]
  rfl

/-! ### Steps -/

/-- A leaf that is started is added to those that are being run. -/
lemma startLeaf_eq {step : EffectiveStep} (h : p.graph.tree.resolve? i p.defaults = some step)
    (w : Walk) : w.startLeaf p i =
      { (w.record p.graph i StepRecord.start).tell (.stepStarted step.name step.path) with
        running := w.running ++ [{ node := i, step }] } := by
  unfold startLeaf
  rw [h]
  rfl

lemma retryLeaf_runningNodes (r : Running) : (w.retryLeaf r).runningNodes = w.runningNodes := by
  show List.map _ (List.map _ w.running) = List.map _ w.running
  rw [List.map_map]
  refine List.map_congr_left ?_
  intro s _
  show Running.node (if s.node = r.node then _ else s) = s.node
  split
  · rename_i heq
    exact heq.symm
  · rfl

/-- What is being run at other nodes goes on when a leaf is tried once more. -/
lemma mem_running_retryLeaf {r s : Running} (hs : s.node ≠ r.node) :
    s ∈ (w.retryLeaf r).running ↔ s ∈ w.running := by
  constructor
  · intro hmem
    obtain ⟨s', hs', rfl⟩ := List.mem_map.1 hmem
    split at hs
    · exact absurd rfl hs
    · rename_i hne
      rwa [if_neg hne]
  · intro hmem
    exact List.mem_map.2 ⟨s, hmem, if_neg hs⟩

/-- What is being run when a leaf is over: all but that leaf. -/
lemma mem_running_finishLeaf {g : Graph} {r s : Running} {o : Outcome} :
    s ∈ (w.finishLeaf g r o).running ↔ s ∈ w.running ∧ s.node ≠ r.node := by
  show s ∈ w.running.filter _ ↔ _
  rw [List.mem_filter, decide_eq_true_eq]

/-- The leaves that are being run when the one at `r` is over. -/
lemma running_perm {r : Running} (hr : r ∈ w.running) (hnodup : w.runningNodes.Nodup) :
    w.running.Perm (r :: w.running.filter fun s => s.node ≠ r.node) := by
  have hfilter : (w.running.filter fun s => s.node ≠ r.node) = w.running.erase r := by
    rw [(List.Nodup.of_map _ hnodup).erase_eq_filter]
    apply List.filter_congr
    intro s hs
    have hnode : s.node = r.node ↔ s = r :=
      ⟨fun h => List.inj_on_of_nodup_map hnodup hs hr h, congrArg Running.node⟩
    simp only [ne_eq, hnode, bne, beq_eq_decide, decide_not]
  rw [hfilter]
  exact List.perm_cons_erase hr

lemma runningNodes_perm {r : Running} (hr : r ∈ w.running) (hnodup : w.runningNodes.Nodup) :
    w.runningNodes.Perm
      (r.node :: (w.running.filter fun s => s.node ≠ r.node).map (·.node)) :=
  (running_perm hr hnodup).map Running.node

theorem placed_fresh (p : WalkPlan) (now : Time) : Placed p (fresh p.graph now) where
  counts := Schedule.counts_start p.graph
  leaf := fun _ hi => nomatch hi
  resolved := fun _ hr => nomatch hr
  alive := fun _ hi => nomatch hi

/-- A node that is settled as soon as it was taken. -/
lemma Placed.taken_pass (h : Placed p w) {schedule : Schedule}
    (hpop : w.schedule.pop = some (i, schedule)) {v : Walk} (hv : v.schedule = schedule)
    (hwaiting : v.waiting = w.waiting) (hrunning : v.running = w.running) :
    (v.settle p.graph i).taken = i :: w.taken := by
  obtain ⟨hready, hsettled, -⟩ := Schedule.pop_eq_some hpop
  have hi : i ∉ schedule.settled := by
    have hfresh := h.counts.fresh i (hready ▸ List.mem_cons_self)
    rw [hsettled]
    exact fun hs => hfresh (List.mem_append_left _ hs)
  show (v.schedule.settle p.graph i).1.settled ++ (v.waiting ++ List.map _ v.running) = _
  rw [hv, Schedule.settle_settled, if_neg hi, hsettled, hwaiting, hrunning]
  rfl

/-- A leaf that waits when it was taken. -/
lemma taken_wait {schedule : Schedule} (hpop : w.schedule.pop = some (i, schedule)) :
    (i :: w.taken).Perm { w with schedule, waiting := w.waiting ++ [i] }.taken := by
  obtain ⟨-, hsettled, -⟩ := Schedule.pop_eq_some hpop
  show List.Perm _ (schedule.settled ++ (w.waiting ++ [i] ++ w.runningNodes))
  rw [hsettled]
  simp only [taken, List.append_assoc, List.singleton_append]
  rw [← List.append_assoc, ← List.append_assoc]
  exact List.perm_middle.symm

lemma Placed.taken_enter (h : Placed p w) {schedule : Schedule}
    (hpop : w.schedule.pop = some (i, schedule)) :
    (i :: w.taken).Perm (enter p.graph i { w with schedule }).taken := by
  unfold Walk.enter
  split
  · symm
    exact .of_eq (h.taken_pass hpop rfl rfl rfl)
  · split
    · exact taken_wait hpop
    · symm
      exact .of_eq (h.taken_pass hpop rfl rfl rfl)

lemma Placed.pass (hg : p.graph.Sound) (h : Placed p w) {schedule : Schedule}
    (hpop : w.schedule.pop = some (i, schedule)) {v : Walk} (hv : v.schedule = schedule)
    (hwaiting : v.waiting = w.waiting) (hrunning : v.running = w.running)
    (hdoomed : v.doomed = w.doomed) : Placed p (v.settle p.graph i) := by
  have hplaces : (v.settle p.graph i).waiting ++ (v.settle p.graph i).runningNodes =
      w.waiting ++ w.runningNodes := by
    show v.waiting ++ List.map _ v.running = _
    rw [hwaiting, hrunning]
    rfl
  constructor
  · rw [h.taken_pass hpop hv hwaiting hrunning]
    show Schedule.Counts _ _ (v.schedule.settle p.graph i).1
    rw [hv]
    exact (h.counts.pop hpop).settle hg i
  · rw [hplaces]
    exact h.leaf
  · show ∀ r ∈ v.running, _
    rw [hrunning]
    exact h.resolved
  · rw [hplaces]
    show ∀ j ∈ _, j ∉ v.doomed
    rw [hdoomed]
    exact h.alive

lemma Placed.enter (hg : p.graph.Sound) (h : Placed p w) {schedule : Schedule}
    (hpop : w.schedule.pop = some (i, schedule)) :
    Placed p (enter p.graph i { w with schedule }) := by
  unfold Walk.enter
  split
  · exact h.pass hg hpop rfl rfl rfl rfl
  · rename_i hdoomed
    split
    · rename_i hleaf
      have hmem : ∀ j, j ∈ w.waiting ++ [i] ++ w.runningNodes →
          j = i ∨ j ∈ w.waiting ++ w.runningNodes := by
        intro j hj
        simp only [List.mem_append, List.mem_singleton] at hj ⊢
        tauto
      constructor
      · exact (h.counts.pop hpop).perm (taken_wait hpop)
      · intro j hj
        rcases hmem j hj with rfl | hj
        · exact hleaf
        · exact h.leaf j hj
      · exact h.resolved
      · intro j hj
        rcases hmem j hj with rfl | hj
        · exact hdoomed
        · exact h.alive j hj
    · exact h.pass hg hpop rfl rfl rfl rfl

/-- A leaf that is started no longer waits. -/
lemma open_start {step : EffectiveStep} (hstep : p.graph.tree.resolve? i p.defaults = some step)
    {rest : List Nat} (hwaiting : w.waiting = i :: rest) :
    (w.waiting ++ w.runningNodes).Perm
      (rest ++ ({ w with waiting := rest }.startLeaf p i).runningNodes) := by
  have hnodes : ({ w with waiting := rest }.startLeaf p i).runningNodes =
      w.runningNodes ++ [i] := by
    rw [startLeaf_eq hstep]
    exact List.map_append
  rw [hnodes, hwaiting, ← List.append_assoc]
  exact (List.perm_append_singleton i _).symm

lemma Placed.start (h : Placed p w) {rest : List Nat} (hwaiting : w.waiting = i :: rest) :
    Placed p ({ w with waiting := rest }.startLeaf p i) := by
  have hleaf := h.leaf i (by simp [hwaiting])
  obtain ⟨n, step, -, hstep, -⟩ := resolve_of_leaf hleaf p.defaults
  have hperm := open_start hstep hwaiting
  rw [startLeaf_eq hstep] at hperm ⊢
  constructor
  · exact h.counts.perm (hperm.append_left _)
  · exact fun j hj => h.leaf j (hperm.mem_iff.2 hj)
  · intro r hr
    rcases List.mem_append.1 hr with hr | hr
    · exact h.resolved r hr
    · rw [List.mem_singleton.1 hr]
      exact hstep
  · exact fun j hj => h.alive j (hperm.mem_iff.2 hj)

lemma Placed.retry (h : Placed p w) {r : Running} (hr : r ∈ w.running) :
    Placed p (w.retryLeaf r) := by
  have hnodes := retryLeaf_runningNodes (w := w) r
  constructor
  · show Schedule.Counts _ (w.schedule.settled ++ (w.waiting ++ runningNodes _)) _
    rw [hnodes]
    exact h.counts
  · show ∀ j ∈ w.waiting ++ runningNodes _, _
    rw [hnodes]
    exact h.leaf
  · intro s hs
    obtain ⟨s', hs', rfl⟩ := List.mem_map.1 hs
    split
    · exact h.resolved r hr
    · exact h.resolved s' hs'
  · show ∀ j ∈ w.waiting ++ runningNodes _, j ∉ w.doomed
    rw [hnodes]
    exact h.alive

/-- The nodes doomed by the end of a leaf are behind it. -/
lemma before_of_mem_dooms (hg : p.graph.Sound) {status : StepStatus}
    (h : j ∈ dooms p.graph i status) : p.graph.Before i j := by
  unfold dooms at h
  split at h
  · cases h
  · split at h
    · exact (Graph.mem_behind hg).1 (List.mem_filter.1 h).1
    · cases h

/-- A leaf that is over is settled. -/
lemma Placed.taken_finish (h : Placed p w) {r : Running} (hr : r ∈ w.running) (o : Outcome) :
    w.taken.Perm (w.finishLeaf p.graph r o).taken := by
  have hmem : r.node ∈ w.waiting ++ w.runningNodes :=
    List.mem_append_right _ (mem_runningNodes hr)
  have hsettled : (w.finishLeaf p.graph r o).schedule.settled = r.node :: w.schedule.settled := by
    show (w.schedule.settle p.graph r.node).1.settled = _
    rw [Schedule.settle_settled, if_neg (h.not_settled hmem)]
  have hperm := runningNodes_perm hr h.running_nodup.1
  show w.taken.Perm ((w.finishLeaf p.graph r o).schedule.settled ++ (w.waiting ++ _))
  rw [hsettled]
  refine ((hperm.append_left w.waiting).append_left w.schedule.settled).trans ?_
  exact (List.perm_middle.append_left _).trans List.perm_middle

lemma Placed.finish (hg : p.graph.Sound) (h : Placed p w) {r : Running} (hr : r ∈ w.running)
    (o : Outcome) : Placed p (w.finishLeaf p.graph r o) := by
  have hmem : r.node ∈ w.waiting ++ w.runningNodes :=
    List.mem_append_right _ (mem_runningNodes hr)
  have hsub : ∀ j ∈ (w.finishLeaf p.graph r o).waiting ++ (w.finishLeaf p.graph r o).runningNodes,
      j ∈ w.waiting ++ w.runningNodes := by
    intro j hj
    rcases List.mem_append.1 hj with hj | hj
    · exact List.mem_append_left _ hj
    · obtain ⟨s, hs, rfl⟩ := List.mem_map.1 hj
      exact List.mem_append_right _ (mem_runningNodes (List.mem_filter.1 hs).1)
  constructor
  · exact (h.counts.settle hg r.node).perm (h.taken_finish hr o)
  · exact fun j hj => h.leaf j (hsub j hj)
  · exact fun s hs => h.resolved s (List.mem_filter.1 hs).1
  · intro j hj hd
    rcases List.mem_append.1 hd with hd | hd
    · exact h.alive j (hsub j hj) hd
    · exact h.not_before hmem (List.mem_append_right _ (hsub j hj)) (before_of_mem_dooms hg hd)

/-- **Every step** leaves the nodes at their places. -/
theorem Placed.step (hg : p.graph.Sound) {driver : Driver} {w' : Walk} (h : Placed p w)
    (hstep : Step p driver w w') : Placed p w' := by
  cases hstep with
  | tick => exact ⟨h.counts, h.leaf, h.resolved, h.alive⟩
  | enter hpop => exact h.enter hg hpop
  | start _ hwaiting _ => exact h.start hwaiting
  | retry hr => exact h.retry hr
  | finish _ _ hr => exact h.finish hg hr _

/-- **At the end** all nodes are settled. -/
theorem Placed.all_settled (hg : p.graph.Sound) (h : Placed p w) (hover : Over w) :
    (∀ i < p.graph.size, i ∈ w.schedule.settled) ∧ w.schedule.isComplete p.graph = true := by
  have htaken : w.taken = w.schedule.settled := by
    simp [taken, runningNodes, hover.waiting, hover.running]
  have hall := h.counts.all_settled hg hover.ready (htaken ▸ List.Subset.refl _)
  refine ⟨hall, (Schedule.isComplete_iff (htaken ▸ h.counts.nodup) ?_).2 hall⟩
  exact fun i hi => h.lt_size (htaken ▸ hi)

end Placed

end StepFlow.Walk
