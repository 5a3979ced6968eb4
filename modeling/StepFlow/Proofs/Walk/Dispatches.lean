import StepFlow.Proofs.Walk.Asks
import StepFlow.Proofs.Walk.Timelines

/-!
What a job in time hands to its agent. A job without a time limit makes an attempt whenever one begins
in its walk: the attempts that it lists are those that the driver is asked to make, in the same order.
-/

namespace StepFlow.Walk

section Courses

variable {f : Flow} {p : WalkPlan} {driver : Driver} {now : Time} {past : List Walk} {v w : Walk}
  {extra : List Running}

/-! ### What begins when a walk goes on -/

/-- What is appended to the attempts in progress begins. -/
lemma begun_of_append (hnodup : w.runningNodes.Nodup) (hrunning : w.running = v.running ++ extra) :
    begun v w = extra := by
  rw [runningNodes, hrunning, List.map_append, List.nodup_append] at hnodup
  rw [begun, hrunning, List.filter_append, List.filter_eq_nil_iff.mpr (by simp), List.nil_append,
    List.filter_eq_self]
  intro r hr
  rw [decide_eq_true_eq]
  intro hmem
  exact hnodup.2.2 _ (List.mem_map_of_mem hmem) _ (List.mem_map_of_mem hr) rfl

/-- Nothing begins while nodes are entered. -/
lemma Course.enterAll (h : Course p driver now past w) : ∃ past',
    Course p driver now past' (enterAll p.graph w) ∧
      asks past' (Walk.enterAll p.graph w) = asks past w := by
  induction w using enterAll.induct p.graph generalizing past with
  | case1 w hpop =>
    rw [Walk.enterAll]
    split
    · exact ⟨past, h, rfl⟩
    · simp_all
  | case2 w i schedule hpop ih =>
    rw [Walk.enterAll]
    split
    · simp_all
    · rename_i hpop'
      cases hpop.symm.trans hpop'
      obtain ⟨past', hcourse, hasks⟩ := ih (h.step (.enter hpop))
      refine ⟨past', hcourse, ?_⟩
      rw [hasks, asks, begun_of_subset fun r hr => ?_, List.append_nil]
      rwa [enter_running] at hr

/-- What is started begins. -/
lemma Course.startLeaves (hg : f.compile = .ok p.graph) (l : List Nat)
    (hready : w.schedule.ready = []) (h : Course p driver now past { w with waiting := l }) :
    ∃ past' extra, Course p driver now past' (startLeaves p l w) ∧
      asks past' (Walk.startLeaves p l w) = asks past { w with waiting := l } ++ extra ∧
      (Walk.startLeaves p l w).running = w.running ++ extra := by
  induction l generalizing past w with
  | nil => exact ⟨past, [], h, (List.append_nil _).symm, (List.append_nil _).symm⟩
  | cons i l ih =>
    rw [Walk.startLeaves]
    split
    case isFalse => exact ⟨past, [], h, (List.append_nil _).symm, (List.append_nil _).symm⟩
    case isTrue hslot =>
      have hnext : Course p driver now ({ w with waiting := i :: l } :: past)
          { w.startLeaf p i with waiting := l } := by
        rw [startLeaf_waiting]
        exact h.step (.start hready rfl hslot)
      obtain ⟨first, hfirst⟩ : ∃ first, (w.startLeaf p i).running = w.running ++ first := by
        unfold startLeaf
        split
        · exact ⟨[], (List.append_nil _).symm⟩
        · exact ⟨_, rfl⟩
      have hnodup := (steps_recorded hg hnext.steps).1.running_nodup.1
      have hready' : (w.startLeaf p i).schedule.ready = [] := by rwa [startLeaf_schedule]
      obtain ⟨past', extra, hcourse, hasks, hrunning⟩ := ih hready' hnext
      refine ⟨past', first ++ extra, hcourse, ?_, ?_⟩
      · rw [hasks, asks, List.append_assoc]
        exact congrArg (fun l => _ ++ (l ++ extra)) (begun_of_append hnodup hfirst)
      · rw [hrunning, hfirst, List.append_assoc]

/-- **What begins while a walk goes on** is what is appended to the attempts in progress. -/
lemma Course.proceed (hg : f.compile = .ok p.graph) (h : Course p driver now past w) :
    ∃ past' extra, Course p driver now past' (w.proceed p) ∧
      asks past' (w.proceed p) = asks past w ++ extra ∧
      (w.proceed p).running = w.running ++ extra := by
  obtain ⟨past₁, hcourse₁, hasks₁⟩ := h.enterAll
  obtain ⟨past₂, extra, hcourse₂, hasks₂, hrunning⟩ := Course.startLeaves hg
    (Walk.enterAll p.graph w).waiting (enterAll_steps (p := p) driver w).2 hcourse₁
  refine ⟨past₂, extra, hcourse₂, hasks₂.trans (congrArg (· ++ extra) hasks₁), ?_⟩
  rw [Walk.proceed, hrunning, enterAll_running]

/-- **The end of an attempt** at a node is followed by those attempts that are in progress then at the
node, or where none was in progress before. -/
lemma Course.answer (hg : f.compile = .ok p.graph) (h : Course p driver now past w)
    (hwaits : Waits p w) (i : Nat) {e : AttemptEnd}
    (he : ∀ r ∈ w.running, r.node = i → driver r.step r.attempt e) : ∃ past',
    Course p driver now past' (w.answer p i e) ∧ asks past' (w.answer p i e) = asks past w ++
      (w.answer p i e).running.filter fun r => r.node = i ∨ r.node ∉ w.runningNodes := by
  have hplaced := (steps_recorded hg h.steps).1
  unfold Walk.answer
  split
  case h_1 hfind =>
    refine ⟨past, h, ?_⟩
    rw [List.filter_eq_nil_iff.mpr, List.append_nil]
    intro r hr
    have hnode : r.node ≠ i := by simpa using List.find?_eq_none.1 hfind r hr
    simp [hnode, mem_runningNodes hr]
  case h_2 r hfind =>
    have hr := List.mem_of_find?_eq_some hfind
    obtain rfl : r.node = i := by simpa using List.find?_some hfind
    split
    case isTrue hagain =>
      refine ⟨w :: past, h.step (.retry hr (he r hr rfl) hagain), ?_⟩
      rw [asks, List.append_cancel_left_eq]
      apply List.filter_congr
      intro s hs
      obtain ⟨s', hs', rfl⟩ := List.mem_map.1 hs
      change s' ∈ w.running at hs'
      by_cases hnode : s'.node = r.node
      · simp [hnode, hplaced.next_not_mem hr]
      · simp [hnode, hs', mem_runningNodes hs']
    case isFalse hlast =>
      have hfinish := h.step
        (.finish hwaits.ready hwaits.full hr (he r hr rfl) (by simpa using hlast))
      obtain ⟨past', extra, hcourse, hasks, hrunning⟩ := hfinish.proceed hg
      have hnodup := (steps_recorded hg hcourse.steps).1.running_nodup.1
      rw [runningNodes, hrunning, List.map_append, List.nodup_append] at hnodup
      refine ⟨past', hcourse, ?_⟩
      rw [hasks, asks, begun_of_subset fun s hs => (mem_running_finishLeaf.1 hs).1, List.append_nil, hrunning,
        List.filter_append, List.filter_eq_nil_iff.mpr, List.nil_append, List.filter_eq_self.mpr]
      · -- what was started is at a node where no other attempt is in progress
        intro s hs
        rw [decide_eq_true_eq]
        by_contra hnot
        obtain ⟨hne, hmem⟩ := not_or.1 hnot
        obtain ⟨s', hs', hnode⟩ := List.mem_map.1 (not_not.1 hmem)
        have hother : s' ∈ (w.finishLeaf p.graph r (Attempt.outcome r.step r.attempt e)).running :=
          mem_running_finishLeaf.2 ⟨hs', hnode ▸ hne⟩
        exact hnodup.2.2 _ (List.mem_map_of_mem hother) _ (List.mem_map_of_mem hs) hnode
      · intro s hs
        obtain ⟨hmem, hne⟩ := mem_running_finishLeaf.1 hs
        simp [hne, mem_runningNodes hmem]

end Courses

/-! ### Jobs in time -/

section Timeline

variable {f : Flow} {p : WalkPlan} {agent : Agent} {start : Time} {t : Timeline}

/-- What is listed of an attempt: the name of the step and the number of the attempt. -/
def listed (r : Running) : String × UInt32 := (r.step.name, r.attempt)

lemma foldl_dispatch (agent : Agent) (due : List Running) (t : Timeline) :
    (due.foldl (Timeline.dispatch agent) t).dispatched = t.dispatched ++ due.map listed ∧
      (due.foldl (Timeline.dispatch agent) t).pending.map (·.node) =
        t.pending.map (·.node) ++ due.map (·.node) := by
  induction due generalizing t with
  | nil => simp
  | cons r due ih =>
    obtain ⟨hdispatched, hpending⟩ := ih (Timeline.dispatch agent t r)
    rw [List.foldl_cons, hdispatched, hpending]
    simp [Timeline.dispatch, listed]

/-- What holds of a job without a time limit whenever it waits: all attempts that the driver is asked
to make were made, and just those are in progress that are in progress in the walk. -/
structure Caught (p : WalkPlan) (start : Time) (t : Timeline) : Prop where
  waits : Waits p t.walk
  nodes : ∀ i, i ∈ t.pending.map (·.node) ↔ i ∈ t.walk.runningNodes
  dispatched : ∃ past, Course p .any start past t.walk ∧
    t.dispatched = (asks past t.walk).map listed

/-- The attempts that are not in progress yet are made. -/
lemma caught_dispatchAll {past : List Walk} (hwaits : Waits p t.walk)
    (hcourse : Course p .any start past t.walk)
    (hnodes : ∀ i ∈ t.pending.map (·.node), i ∈ t.walk.runningNodes)
    (hasks : (asks past t.walk).map listed = t.dispatched ++
      (t.walk.running.filter fun r => r.node ∉ t.pending.map (·.node)).map listed) :
    Caught p start (Timeline.dispatchAll agent none t) := by
  have hdue : t.walk.running.filter (fun r => !t.pending.any fun q => q.node = r.node) =
      t.walk.running.filter fun r => r.node ∉ t.pending.map (·.node) := by
    apply List.filter_congr
    intro r _
    rw [Bool.eq_iff_iff]
    simp
  have hall : Timeline.dispatchAll agent none t =
      (t.walk.running.filter fun r => r.node ∉ t.pending.map (·.node)).foldl
        (Timeline.dispatch agent) t := by
    rw [← hdue]
    rfl
  obtain ⟨hdispatched, hpending⟩ := foldl_dispatch agent
    (t.walk.running.filter fun r => r.node ∉ t.pending.map (·.node)) t
  rw [hall]
  refine ⟨?_, ?_, past, ?_, ?_⟩
  · rwa [foldl_dispatch_walk]
  · intro i
    rw [hpending, foldl_dispatch_walk, List.mem_append]
    constructor
    · rintro (hi | hi)
      · exact hnodes i hi
      · obtain ⟨r, hr, rfl⟩ := List.mem_map.1 hi
        exact mem_runningNodes (List.mem_filter.1 hr).1
    · intro hi
      obtain ⟨r, hr, rfl⟩ := List.mem_map.1 hi
      by_cases hnode : r.node ∈ t.pending.map (·.node)
      · exact .inl hnode
      · exact .inr (List.mem_map_of_mem (List.mem_filter.2 ⟨hr, decide_eq_true hnode⟩))
  · rwa [foldl_dispatch_walk]
  · rw [hdispatched, foldl_dispatch_walk, hasks]

/-- **The end of an attempt** in a job in time. -/
lemma Caught.step (hg : f.compile = .ok p.graph) (h : Caught p start t) (q : Pending) :
    Caught p start (t.step p agent none q) := by
  obtain ⟨past, hcourse, hdispatched⟩ := h.dispatched
  have htick : Course p .any start (t.walk :: past) (t.walk.tick q.due) :=
    hcourse.step (.tick _ _)
  have hwaits : Waits p (t.walk.tick q.due) := ⟨h.waits.ready, h.waits.full⟩
  obtain ⟨past', hcourse', hasks⟩ := htick.answer hg hwaits q.node (e := q.ending)
    fun _ _ _ => trivial
  -- the attempts that are still in progress
  have hothers : ∀ i, i ∈ (t.pending.filter fun s => s.node ≠ q.node).map (·.node) ↔
      i ≠ q.node ∧ i ∈ t.walk.runningNodes := by
    intro i
    rw [← h.nodes i, List.mem_map, List.mem_map]
    constructor
    · rintro ⟨s, hs, rfl⟩
      obtain ⟨hmem, hne⟩ := List.mem_filter.1 hs
      exact ⟨of_decide_eq_true hne, s, hmem, rfl⟩
    · rintro ⟨hne, s, hs, rfl⟩
      exact ⟨s, List.mem_filter.2 ⟨hs, decide_eq_true hne⟩, rfl⟩
  rw [Timeline.step]
  refine caught_dispatchAll (answer_steps .any hwaits q.node fun _ _ _ => trivial).2 hcourse' ?_ ?_
  · intro i hi
    obtain ⟨hne, hmem⟩ := (hothers i).1 hi
    obtain ⟨r, hr, rfl⟩ := List.mem_map.1 hmem
    obtain ⟨others, extra, hrunning, hsame⟩ :=
      answer_running p q.node q.ending (t.walk.tick q.due)
    refine List.mem_map_of_mem ?_
    rw [hrunning]
    exact List.mem_append_left _ ((hsame r hne).2 hr)
  · have hnew : ∀ l : List Running,
        (l.filter fun r => r.node ∉ (t.pending.filter fun s => s.node ≠ q.node).map (·.node)) =
          l.filter fun r => r.node = q.node ∨ r.node ∉ t.walk.runningNodes := by
      intro l
      apply List.filter_congr
      intro r _
      rw [decide_eq_decide, hothers, not_and_or, not_not]
    have hnone : begun t.walk (t.walk.tick q.due) = [] := begun_of_subset fun _ hr => hr
    rw [hasks, asks, hnone, List.append_nil, List.map_append, ← hdispatched]
    exact congrArg (fun l => t.dispatched ++ l.map listed) (hnew _).symm

lemma caught_start (hg : f.compile = .ok p.graph) (agent : Agent) (start : Time) :
    Caught p start (Timeline.dispatchAll agent none { walk := Run.start p start }) := by
  have hfresh : Course p .any start [] (fresh p.graph start) := .start
  obtain ⟨past, extra, hcourse, hasks, hrunning⟩ := hfresh.proceed hg
  refine caught_dispatchAll (start_steps p .any start).2 hcourse ?_ ?_
  · intro i hi
    cases hi
  · have hall : (Run.start p start).running.filter (fun r => r.node ∉ [].map Pending.node) =
        (Run.start p start).running := List.filter_eq_self.mpr (by simp)
    exact congrArg (List.map listed) ((hasks.trans hrunning.symm).trans hall.symm)

lemma Caught.runFor (hg : f.compile = .ok p.graph) (n : Nat) (h : Caught p start t) :
    Caught p start (Timeline.runFor p agent none n t) := by
  induction n generalizing t with
  | zero => exact h
  | succ n ih =>
    rw [Timeline.runFor]
    split
    · exact h
    · rename_i q _
      exact ih (h.step hg q)

/-- **What a job in time hands to its agent**, if it has no time limit: the attempts that it lists are
those that the driver is asked to make in a run of its walk, in the same order. -/
theorem timeline_dispatched (hg : f.compile = .ok p.graph) (agent : Agent) (start : Time) :
    ∃ past, Course p .any start past (Timeline.run p agent start none).walk ∧
      (Timeline.run p agent start none).dispatched =
        (asks past (Timeline.run p agent start none).walk).map listed :=
  ((caught_start hg agent start).runFor hg _).dispatched

end Timeline

end StepFlow.Walk
