import Mathlib.Data.Prod.Lex
import StepFlow.Proofs.Walk.Attempts
import StepFlow.Proofs.Walk.Places

/-!
Walks come to an end. As long as a walk is not over there is something that may happen next, if only
every attempt ends in some way. And whatever happens, but that time passes, leaves less to be done:
fewer nodes to take from the schedule, or else fewer leaves to start, or else fewer attempts to make.
-/

namespace StepFlow

/-- How many attempts at a leaf may still end. -/
def Running.left (r : Running) : Nat := r.step.maxAttempts.toNat - r.attempt.toNat + 1

/-- Another attempt is one attempt less to make. -/
lemma Running.left_next {r : Running} {e : AttemptEnd}
    (hagain : Attempt.isRetried r.step r.attempt e = true) :
    Running.left { r with attempt := r.attempt + 1 } < r.left := by
  have hlt : r.attempt.toNat < r.step.maxAttempts.toNat := Attempt.lt_of_isRetried hagain
  show r.step.maxAttempts.toNat - (r.attempt + 1).toNat + 1 < _
  rw [Attempt.toNat_next hagain, Running.left]
  omega

namespace Walk

/-- What there is to be done: the nodes to be taken, the leaves to be started, and the attempts at
those that are being run. -/
def work (p : WalkPlan) (w : Walk) : Nat ×ₗ Nat ×ₗ Nat :=
  toLex (p.graph.size - w.taken.length,
    toLex (w.waiting.length, (w.running.map Running.left).sum))

section Work

variable {p : WalkPlan} {driver : Driver} {w w' : Walk} {i : Nat}

lemma work_lt_of_taken (h : p.graph.size - w'.taken.length < p.graph.size - w.taken.length) :
    work p w' < work p w :=
  Prod.Lex.toLex_lt_toLex.mpr (.inl h)

lemma work_lt_of_waiting (htaken : w.taken.Perm w'.taken)
    (h : w'.waiting.length < w.waiting.length) : work p w' < work p w := by
  refine Prod.Lex.toLex_lt_toLex.mpr (.inr ⟨?_, Prod.Lex.toLex_lt_toLex.mpr (.inl h)⟩)
  rw [htaken.length_eq]

lemma work_lt_of_running (htaken : w.taken.Perm w'.taken) (hwaiting : w'.waiting = w.waiting)
    (h : (w'.running.map Running.left).sum < (w.running.map Running.left).sum) :
    work p w' < work p w := by
  refine Prod.Lex.toLex_lt_toLex.mpr (.inr ⟨?_, Prod.Lex.toLex_lt_toLex.mpr (.inr ⟨?_, h⟩)⟩)
  · rw [htaken.length_eq]
  · rw [hwaiting]

lemma Placed.length_taken_le (h : Placed p w) : w.taken.length ≤ p.graph.size := by
  have hsub : w.taken.Subperm (List.range p.graph.size) :=
    h.counts.nodup.subperm fun i hi => List.mem_range.2 (h.lt_size hi)
  simpa using hsub.length_le

lemma Placed.work_enter (hg : p.graph.Sound) (h : Placed p w) {schedule : Schedule}
    (hpop : w.schedule.pop = some (i, schedule)) :
    work p (Walk.enter p.graph i { w with schedule }) < work p w := by
  apply work_lt_of_taken
  have hlen := (h.taken_enter hpop).length_eq
  have hle := (h.enter hg hpop).length_taken_le
  rw [List.length_cons] at hlen
  omega

lemma Placed.work_start (h : Placed p w) {rest : List Nat} (hwaiting : w.waiting = i :: rest) :
    work p ({ w with waiting := rest }.startLeaf p i) < work p w := by
  obtain ⟨n, step, -, hstep, -⟩ :=
    resolve_of_leaf (h.leaf i (by simp [hwaiting])) p.defaults
  have hperm := open_start hstep hwaiting
  rw [startLeaf_eq hstep] at hperm ⊢
  apply work_lt_of_waiting
  · exact hperm.append_left _
  · show rest.length < w.waiting.length
    rw [hwaiting]
    exact Nat.lt_succ_self _

lemma Placed.work_retry (h : Placed p w) {r : Running} {e : AttemptEnd} (hr : r ∈ w.running)
    (hagain : Attempt.isRetried r.step r.attempt e = true) : work p (w.retryLeaf r) < work p w := by
  apply work_lt_of_running
  · show w.taken.Perm (w.schedule.settled ++ (w.waiting ++ runningNodes _))
    rw [retryLeaf_runningNodes]
    rfl
  · rfl
  · show (List.map _ (List.map _ w.running)).sum < _
    rw [List.map_map]
    -- no other leaf has the node of `r`
    have hle : ∀ s ∈ w.running, Running.left (if s.node = r.node then
        { r with attempt := r.attempt + 1 } else s) ≤ s.left := by
      intro s hs
      split
      case isTrue hnode =>
        obtain rfl := List.inj_on_of_nodup_map h.running_nodup.1 hs hr hnode
        exact (Running.left_next hagain).le
      case isFalse => exact le_rfl
    refine List.sum_lt_sum _ _ hle ⟨r, hr, ?_⟩
    show Running.left (if r.node = r.node then _ else r) < _
    rw [if_pos rfl]
    exact Running.left_next hagain

lemma Placed.work_finish (h : Placed p w) {r : Running} (hr : r ∈ w.running) (o : Outcome) :
    work p (w.finishLeaf p.graph r o) < work p w := by
  apply work_lt_of_running (h.taken_finish hr o) rfl
  have hsum := ((running_perm hr h.running_nodup.1).map Running.left).sum_eq
  rw [hsum, List.map_cons, List.sum_cons, Running.left]
  show (List.map _ (w.running.filter _)).sum < _
  omega

/-- **Every step** but the passing of time leaves less to be done. -/
theorem Placed.work_lt (hg : p.graph.Sound) (h : Placed p w) (hstep : Step p driver w w') :
    work p w' < work p w ∨ ∃ now, w' = w.tick now := by
  cases hstep with
  | tick now => exact .inr ⟨now, rfl⟩
  | enter hpop => exact .inl (h.work_enter hg hpop)
  | start _ hwaiting _ => exact .inl (h.work_start hwaiting)
  | retry hr _ hagain => exact .inl (h.work_retry hr hagain)
  | finish _ _ hr => exact .inl (h.work_finish hr _)

/-- **No walk goes on forever**, whatever the order in which attempts end. -/
theorem steps_wellFounded (hg : p.graph.Sound) (driver : Driver) :
    WellFounded fun w' w => Placed p w ∧ Step p driver w w' ∧ ∀ now, w' ≠ w.tick now := by
  refine Subrelation.wf ?_ (InvImage.wf (work p) wellFounded_lt)
  rintro w' w ⟨hplaced, hstep, htick⟩
  refine (hplaced.work_lt hg hstep).resolve_right ?_
  rintro ⟨now, rfl⟩
  exact htick now rfl

/-- **A walk that is not over** can go on: a node is ready, or a leaf can be started, or an attempt
can end. -/
theorem Placed.exists_step (hg : p.graph.Sound) (h : Placed p w)
    (hdriver : ∀ step attempt, ∃ e, driver step attempt e) (hover : ¬ Over w) :
    ∃ w', Step p driver w w' ∧ work p w' < work p w := by
  cases hpop : w.schedule.pop with
  | some next =>
    obtain ⟨i, schedule⟩ := next
    exact ⟨_, .enter hpop, h.work_enter hg hpop⟩
  | none =>
    have hready := Schedule.pop_eq_none hpop
    by_cases hfull : w.waiting = [] ∨ p.slots ≤ w.running.length
    · obtain ⟨r, hr⟩ : ∃ r, r ∈ w.running := by
        apply List.exists_mem_of_ne_nil
        intro hrunning
        rcases hfull with hwaiting | hslots
        · exact hover ⟨hready, hwaiting, hrunning⟩
        · rw [hrunning, WalkPlan.slots] at hslots
          simp at hslots
      obtain ⟨e, he⟩ := hdriver r.step r.attempt
      cases hlast : Attempt.isRetried r.step r.attempt e with
      | true => exact ⟨_, .retry hr he hlast, h.work_retry hr hlast⟩
      | false => exact ⟨_, .finish hready hfull hr he hlast, h.work_finish hr _⟩
    · obtain ⟨hwaiting, hslot⟩ := not_or.1 hfull
      obtain ⟨i, rest, hwaiting⟩ := List.exists_cons_of_ne_nil hwaiting
      exact ⟨_, .start hready hwaiting (Nat.lt_of_not_le hslot), h.work_start hwaiting⟩

/-- **Every walk** can be brought to its end. -/
theorem exists_over (hg : p.graph.Sound) (hdriver : ∀ step attempt, ∃ e, driver step attempt e)
    (h : Placed p w) : ∃ w', Steps p driver w w' ∧ Over w' := by
  induction w using WellFounded.induction (InvImage.wf (work p) wellFounded_lt) with
  | _ w ih =>
    by_cases hover : Over w
    · exact ⟨w, .refl, hover⟩
    · obtain ⟨v, hstep, hlt⟩ := h.exists_step hg hdriver hover
      obtain ⟨w', hsteps, hover'⟩ := ih v hlt (h.step hg hstep)
      exact ⟨w', .head hstep hsteps, hover'⟩

end Work

end Walk

end StepFlow
