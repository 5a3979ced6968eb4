import Mathlib.Algebra.Order.BigOperators.Group.Finset
import StepFlow.Proofs.Walk.Dispatches

/-!
Jobs in time come to an end. A job without a time limit lets as many attempts end as its steps may have
in all, and that is enough: no leaf is handed to the agent more often than it may be tried, and of the
attempts that were made all have ended but those in progress; so in the end none is in progress.
-/

namespace StepFlow.Walk

section Completion

variable {f : Flow} {p : WalkPlan} {driver : Driver} {now : Time} {past : List Walk} {w : Walk}
  {i m : Nat} {a : Account} {agent : Agent} {start : Time} {t : Timeline}

/-! ### How many attempts there may be -/

/-- How often the step at a node may be tried. -/
def mostAttempts (p : WalkPlan) (i : Nat) : Nat :=
  ((p.graph.tree.resolve? i p.defaults).map (·.maxAttempts.toNat)).getD 0

lemma mostAttempts_eq {step : EffectiveStep} (h : p.graph.tree.resolve? i p.defaults = some step) :
    mostAttempts p i = step.maxAttempts.toNat := by
  rw [mostAttempts, h]
  rfl

lemma maxAttempts_eq_sum (p : WalkPlan) :
    Timeline.maxAttempts p = ∑ i ∈ Finset.range p.graph.size, mostAttempts p i := by
  rw [Timeline.maxAttempts, Finset.sum_eq_multiset_sum, Finset.range_val, Multiset.range,
    Multiset.map_coe, Multiset.sum_coe, List.sum_eq_foldr, List.foldr_map]
  rfl

/-- A leaf is not handed to the driver more often than it may be tried. -/
lemma Tallied.le_most (hplaced : Placed p w) {n : TreeNode} (h : Tallied p driver w i n m a) :
    m ≤ mostAttempts p i := by
  cases h with
  | ahead => exact Nat.zero_le _
  | @running r retries hr hnode hretries =>
    rw [mostAttempts_eq (hnode ▸ hplaced.resolved r hr)]
    exact hretries.most
  | skipped => exact Nat.zero_le _
  | ended _ hstep _ _ _ hretries =>
    rw [mostAttempts_eq hstep]
    exact hretries.most

/-- Only leaves are handed to the driver. -/
lemma Course.leaf_of_asks (hg : f.compile = .ok p.graph) (h : Course p driver now past w)
    {r : Running} (hr : r ∈ asks past w) : p.graph.tree.isLeaf r.node = true := by
  induction h with
  | start => cases hr
  | step hpast hstep ih =>
    rcases List.mem_append.1 hr with hr | hr
    · exact ih hr
    · have hplaced := (steps_recorded hg (hpast.steps.tail hstep)).1
      have hrunning := mem_runningNodes (List.mem_filter.1 hr).1
      exact hplaced.leaf _ (List.mem_append_right _ hrunning)

/-- **How many attempts** a driver is asked to make: no more than the steps may have in all. -/
theorem Course.length_asks_le (hg : f.compile = .ok p.graph) (h : Course p driver now past w) :
    (asks past w).length ≤ Timeline.maxAttempts p := by
  have hplaced := (steps_recorded hg h.steps).1
  have hnodes : ∀ i ∈ ((asks past w).map (·.node) : Multiset Nat),
      i ∈ Finset.range p.graph.size := by
    intro i hi
    obtain ⟨r, hr, rfl⟩ := List.mem_map.1 (Multiset.mem_coe.1 hi)
    have hstep := Graph.isStep_of_isLeaf (h.leaf_of_asks hg hr)
    exact Finset.mem_range.2 ((Graph.compile_isStep_iff hg).1 hstep).2
  have hsum := Multiset.sum_count_eq_card hnodes
  rw [Multiset.coe_card, List.length_map] at hsum
  rw [← hsum, maxAttempts_eq_sum]
  refine Finset.sum_le_sum fun i _ => ?_
  rw [Multiset.coe_count, List.count, List.countP_map]
  by_cases hi : p.graph.tree.isLeaf i = true
  · obtain ⟨n, hn, -⟩ := Tree.isStep_iff.1 (Graph.isStep_of_isLeaf hi)
    exact (h.tally hg i n hi hn).le_most hplaced
  · -- a node that is no leaf is not among them
    refine le_of_eq_of_le (List.countP_eq_zero.2 fun r hr => ?_) (Nat.zero_le _)
    rw [Function.comp_apply, beq_iff_eq]
    rintro rfl
    exact hi (h.leaf_of_asks hg hr)

/-! ### Jobs in time -/

lemma next?_eq_none_iff {l : List Pending} : Timeline.next? l = none ↔ l = [] := by
  cases l with
  | nil => exact iff_of_true rfl rfl
  | cons q l =>
    refine iff_of_false ?_ (List.cons_ne_nil q l)
    rw [Timeline.next?]
    split
    · exact Option.some_ne_none q
    · split <;> exact Option.some_ne_none _

/-- The attempts that are made are listed, and are in progress. -/
lemma dispatchAll_length (agent : Agent) (limit : Option Time) (t : Timeline) : ∃ k,
    (Timeline.dispatchAll agent limit t).dispatched.length = t.dispatched.length + k ∧
      (Timeline.dispatchAll agent limit t).pending.length = t.pending.length + k := by
  unfold Timeline.dispatchAll
  split
  · exact ⟨0, rfl, rfl⟩
  · obtain ⟨due, hdue⟩ : ∃ due,
        due = t.walk.running.filter fun r => !t.pending.any fun q => q.node = r.node := ⟨_, rfl⟩
    rw [← hdue]
    obtain ⟨hdispatched, hpending⟩ := foldl_dispatch agent due t
    refine ⟨due.length, ?_, ?_⟩
    · rw [hdispatched, List.length_append, List.length_map]
    · have hlength := congrArg List.length hpending
      rwa [List.length_map, List.length_append, List.length_map, List.length_map] at hlength

/-- Of the attempts that were made, one more has ended. -/
lemma step_length {q : Pending} {k : Nat} (hq : q ∈ t.pending)
    (h : k + t.pending.length ≤ t.dispatched.length) :
    k + 1 + (t.step p agent none q).pending.length ≤ (t.step p agent none q).dispatched.length := by
  have hless : (t.pending.filter fun r => r.node ≠ q.node).length < t.pending.length :=
    List.length_filter_lt_length_iff_exists.2 ⟨q, hq, by simp⟩
  rw [Timeline.step]
  obtain ⟨more, hdispatched, hpending⟩ := dispatchAll_length agent none { t with
    walk := (t.walk.tick q.due).answer p q.node q.ending
    pending := t.pending.filter fun r => r.node ≠ q.node }
  rw [hdispatched, hpending]
  show k + 1 + ((t.pending.filter fun r => r.node ≠ q.node).length + more) ≤
    t.dispatched.length + more
  omega

/-- When `k` attempts have ended and no more than `n` others may end, none is in progress after
those. -/
lemma Caught.runFor_pending (hg : f.compile = .ok p.graph) (n k : Nat) (h : Caught p start t)
    (hlength : k + t.pending.length ≤ t.dispatched.length)
    (hn : Timeline.maxAttempts p ≤ k + n) : (Timeline.runFor p agent none n t).pending = [] := by
  induction n generalizing k t with
  | zero =>
    obtain ⟨past, hcourse, hdispatched⟩ := h.dispatched
    have hmost := hcourse.length_asks_le hg
    rw [hdispatched, List.length_map] at hlength
    have hnone : t.pending.length = 0 := by omega
    exact List.eq_nil_of_length_eq_zero hnone
  | succ n ih =>
    rw [Timeline.runFor]
    split
    case h_1 hnext => exact next?_eq_none_iff.1 hnext
    case h_2 q hnext =>
      exact ih (k + 1) (h.step hg q) (step_length (mem_of_next? hnext) hlength) (by omega)

/-- A job in time that waits for no attempt is over. -/
lemma Caught.over (h : Caught p start t) (hpending : t.pending = []) : Over t.walk := by
  have hrunning : t.walk.running = [] := by
    rw [List.eq_nil_iff_forall_not_mem]
    intro r hr
    have hmem := (h.nodes r.node).2 (mem_runningNodes hr)
    rw [hpending] at hmem
    cases hmem
  refine ⟨h.waits.ready, h.waits.full.resolve_right ?_, hrunning⟩
  rw [hrunning, WalkPlan.slots]
  simp

/-- **Every job in time** is over in the end if it has no time limit, whatever its agent does. -/
theorem timeline_over (hg : f.compile = .ok p.graph) (agent : Agent) (start : Time) :
    Over (Timeline.run p agent start none).walk := by
  have hstart := caught_start hg agent start
  obtain ⟨k, hdispatched, hpending⟩ := dispatchAll_length agent none { walk := Run.start p start }
  refine (hstart.runFor hg _).over (hstart.runFor_pending hg _ 0 ?_ ?_)
  · rw [hdispatched, hpending]
    exact le_of_eq (Nat.zero_add _)
  · rw [Nat.zero_add]

end Completion

end StepFlow.Walk
