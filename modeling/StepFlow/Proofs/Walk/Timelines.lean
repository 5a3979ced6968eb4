import StepFlow.Proofs.Walk.Attempts
import StepFlow.Proofs.Walk.Statuses

/-!
Jobs in time as walks. The attempts that a job in time has in progress are those of the steps that
its walk is running, and each of them ends as the agent replies to that step and that attempt; so
what the job goes through is a walk with the driver of the agent.
-/

namespace StepFlow

/-- How attempts at a step end with an agent. -/
def Agent.behaviour (agent : Agent) (step : EffectiveStep) (attempt : UInt32) : AttemptEnd :=
  ((agent step attempt).outcome step).2

namespace Walk

/-! ### Who is being run -/

section Running

variable {p : WalkPlan} {w : Walk} {i : Nat}

lemma enter_running (g : Graph) (i : Nat) (w : Walk) : (enter g i w).running = w.running := by
  unfold enter
  split
  · rfl
  · split <;> rfl

lemma enterAll_running (g : Graph) (w : Walk) : (enterAll g w).running = w.running := by
  induction w using enterAll.induct g with
  | case1 w hpop =>
    rw [enterAll]
    split
    · rfl
    · simp_all
  | case2 w i schedule hpop ih =>
    rw [enterAll]
    split
    · rfl
    · rename_i hpop'
      cases hpop.symm.trans hpop'
      rw [ih, enter_running]

lemma startLeaves_running (l : List Nat) (w : Walk) :
    ∃ extra, (startLeaves p l w).running = w.running ++ extra := by
  induction l generalizing w with
  | nil => exact ⟨[], (List.append_nil _).symm⟩
  | cons i l ih =>
    rw [startLeaves]
    split
    · obtain ⟨extra, hextra⟩ := ih (w.startLeaf p i)
      rw [hextra, startLeaf]
      split
      · exact ⟨extra, rfl⟩
      · exact ⟨_, List.append_assoc _ _ _⟩
    · exact ⟨[], (List.append_nil _).symm⟩

/-- Going on starts steps and leaves those that are being run alone. -/
lemma proceed_running (w : Walk) : ∃ extra, (w.proceed p).running = w.running ++ extra := by
  obtain ⟨extra, hextra⟩ := startLeaves_running (p := p) (enterAll p.graph w).waiting
    (enterAll p.graph w)
  refine ⟨extra, ?_⟩
  rw [proceed, hextra, enterAll_running]

/-- The end of an attempt at one node leaves the steps that are being run at other nodes alone. -/
lemma answer_running (p : WalkPlan) (i : Nat) (e : AttemptEnd) (w : Walk) :
    ∃ others extra, (w.answer p i e).running = others ++ extra ∧
      (∀ r : Running, r.node ≠ i → (r ∈ others ↔ r ∈ w.running)) := by
  unfold answer
  split
  · exact ⟨w.running, [], (List.append_nil _).symm, fun _ _ => Iff.rfl⟩
  · rename_i r hfind
    have hnode : r.node = i := by simpa using List.find?_some hfind
    split
    · refine ⟨_, [], (List.append_nil _).symm, ?_⟩
      exact fun s hs => mem_running_retryLeaf (hnode ▸ hs)
    · obtain ⟨extra, hextra⟩ := proceed_running (p := p)
        (w.finishLeaf p.graph r (Attempt.outcome r.step r.attempt e))
      refine ⟨_, extra, hextra, ?_⟩
      exact fun s hs => mem_running_finishLeaf.trans (and_iff_left (hnode ▸ hs))

end Running

/-! ### Attempts in progress -/

/-- Attempts in progress are at nodes that are being run, and end as the agent says. -/
structure Foreseen (agent : Agent) (w : Walk) (pending : List Pending) : Prop where
  nodes : ∀ q ∈ pending, q.node ∈ w.runningNodes
  ending : ∀ q ∈ pending, ∀ r ∈ w.running, r.node = q.node →
    q.ending = agent.behaviour r.step r.attempt

section Foreseen

variable {f : Flow} {p : WalkPlan} {agent : Agent} {w : Walk} {pending : List Pending}
  {q : Pending} {t : Timeline} {now : Time}

/-- The end of an attempt that was in progress is one that the agent's driver allows. -/
lemma Foreseen.driver (h : Foreseen agent w pending) (hq : q ∈ pending) {r : Running}
    (hr : r ∈ w.running) (hnode : r.node = q.node) :
    Driver.of agent.behaviour r.step r.attempt q.ending := by
  rw [h.ending q hq r hr hnode]
  rfl

/-- When an attempt ended, the others are still in progress. -/
lemma Foreseen.answer (h : Foreseen agent w pending)
    (hnodup : (w.answer p q.node q.ending).runningNodes.Nodup) :
    Foreseen agent (w.answer p q.node q.ending) (pending.filter fun s => s.node ≠ q.node) := by
  obtain ⟨others, extra, hrunning, hothers⟩ := answer_running p q.node q.ending w
  have hkept : ∀ s ∈ pending.filter (fun s => s.node ≠ q.node),
      s ∈ pending ∧ ∃ r ∈ others, r.node = s.node ∧ r ∈ w.running := by
    intro s hs
    obtain ⟨hmem, hne⟩ := List.mem_filter.1 hs
    obtain ⟨r, hr, hnode⟩ := List.mem_map.1 (h.nodes s hmem)
    have hne' : r.node ≠ q.node := by simpa [hnode] using hne
    exact ⟨hmem, r, (hothers r hne').2 hr, hnode, hr⟩
  refine ⟨?_, ?_⟩
  · intro s hs
    obtain ⟨-, r, hr, hnode, -⟩ := hkept s hs
    rw [runningNodes, hrunning]
    exact List.mem_map.2 ⟨r, List.mem_append_left _ hr, hnode⟩
  · intro s hs r hr hnode
    obtain ⟨hmem, r', hr', hnode', hold⟩ := hkept s hs
    -- no other step is being run at the node
    have hsame : r = r' := by
      refine List.inj_on_of_nodup_map hnodup hr ?_ (hnode.trans hnode'.symm)
      rw [hrunning]
      exact List.mem_append_left _ hr'
    rw [hsame]
    exact h.ending s hmem r' hold hnode'

lemma Foreseen.dispatch (hnodup : w.runningNodes.Nodup) (h : Foreseen agent w pending)
    {due : List Running} (hdue : ∀ r ∈ due, r ∈ w.running) (t : Timeline) (hw : t.walk = w)
    (hp : t.pending = pending) :
    Foreseen agent w (due.foldl (Timeline.dispatch agent) t).pending := by
  induction due generalizing t pending with
  | nil => exact hp ▸ h
  | cons r due ih =>
    rw [List.forall_mem_cons] at hdue
    refine ih ?_ hdue.2 (Timeline.dispatch agent t r) hw rfl
    have hpending : (Timeline.dispatch agent t r).pending = pending ++
        [{ node := r.node, due := t.now + ((agent r.step r.attempt).outcome r.step).1,
           ending := agent.behaviour r.step r.attempt }] := by
      rw [← hp]
      rfl
    rw [hpending]
    refine ⟨?_, ?_⟩
    · intro q hq
      rcases List.mem_append.1 hq with hq | hq
      · exact h.nodes q hq
      · rw [List.mem_singleton.1 hq]
        exact mem_runningNodes hdue.1
    · intro q hq s hs hnode
      rcases List.mem_append.1 hq with hq | hq
      · exact h.ending q hq s hs hnode
      · rw [List.mem_singleton.1 hq] at hnode ⊢
        rw [List.inj_on_of_nodup_map hnodup hs hdue.1 hnode]

lemma Foreseen.dispatchAll (hnodup : t.walk.runningNodes.Nodup)
    (h : Foreseen agent t.walk t.pending) (limit : Option Time) :
    Foreseen agent (Timeline.dispatchAll agent limit t).walk
      (Timeline.dispatchAll agent limit t).pending := by
  rw [dispatchAll_walk]
  unfold Timeline.dispatchAll
  split
  · exact h
  · exact h.dispatch hnodup (fun r hr => (List.mem_filter.1 hr).1) t rfl rfl

lemma mem_of_next? {l : List Pending} (h : Timeline.next? l = some q) : q ∈ l := by
  induction l generalizing q with
  | nil => cases h
  | cons s l ih =>
    rw [Timeline.next?] at h
    cases hl : Timeline.next? l with
    | none =>
      rw [hl] at h
      cases h
      exact List.mem_cons_self
    | some r =>
      rw [hl] at h
      simp only at h
      split at h
      · cases h
        exact List.mem_cons_of_mem s (ih hl)
      · cases h
        exact List.mem_cons_self

/-! ### The job in time -/

lemma runFor_steps_of (hg : f.compile = .ok p.graph) (limit : Option Time) (n : Nat)
    (hsteps : Steps p (.of agent.behaviour) (fresh p.graph now) t.walk) (hwaits : Waits p t.walk)
    (h : Foreseen agent t.walk t.pending) :
    Steps p (.of agent.behaviour) (fresh p.graph now) (Timeline.runFor p agent limit n t).walk := by
  induction n generalizing t with
  | zero => exact hsteps
  | succ n ih =>
    rw [Timeline.runFor]
    split
    · exact hsteps
    · rename_i q hq
      have hmem := mem_of_next? hq
      have htick : Steps p (.of agent.behaviour) (fresh p.graph now) (t.walk.tick q.due) :=
        hsteps.tail (.tick _ _)
      split
      · exact hsteps.tail (.tick _ _)
      · have hforeseen : Foreseen agent (t.walk.tick q.due) t.pending := ⟨h.nodes, h.ending⟩
        obtain ⟨hanswer, hwaits'⟩ := answer_steps (.of agent.behaviour) (w := t.walk.tick q.due)
          (e := q.ending) ⟨hwaits.ready, hwaits.full⟩ q.node fun r hr hnode =>
            hforeseen.driver hmem hr hnode
        have hsteps' := htick.trans hanswer
        have hnodup := (steps_recorded hg hsteps').1.running_nodup.1
        refine ih ?_ ?_ ?_
        · rw [Timeline.step, dispatchAll_walk]
          exact hsteps'
        · rw [Timeline.step, dispatchAll_walk]
          exact hwaits'
        · exact Foreseen.dispatchAll (t := { t with
            walk := (t.walk.tick q.due).answer p q.node q.ending
            pending := t.pending.filter fun r => r.node ≠ q.node }) hnodup
            (hforeseen.answer hnodup) limit

/-- **A job in time** is a walk with the driver of its agent. -/
theorem timeline_steps_of (hg : f.compile = .ok p.graph) (start : Time) (limit : Option UInt64) :
    Steps p (.of agent.behaviour) (fresh p.graph start) (Timeline.run p agent start limit).walk := by
  obtain ⟨hsteps, hwaits⟩ := start_steps p (.of agent.behaviour) start
  have hnodup := (steps_recorded hg hsteps).1.running_nodup.1
  have hnone : Foreseen agent (Run.start p start) [] :=
    ⟨List.forall_mem_nil _, List.forall_mem_nil _⟩
  have hfirst := hnone.dispatchAll (t := { walk := Run.start p start }) hnodup
  refine runFor_steps_of hg _ _ ?_ ?_ (hfirst _)
  · rw [dispatchAll_walk]
    exact hsteps
  · rw [dispatchAll_walk]
    exact hwaits

end Foreseen

end Walk

end StepFlow
