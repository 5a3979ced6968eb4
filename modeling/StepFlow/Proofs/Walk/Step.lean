import StepFlow.Job.Timeline
import StepFlow.Proofs.Job.Closing
import StepFlow.Proofs.Schedule.Countdown

/-!
Walks step by step. A step enters a ready node, starts a waiting leaf, tries a leaf once more, or
ends one; attempts end in any order, in any way that the driver may end them, and at any time.
Whatever the walk of a job does at once, and whatever a job in time does, are steps of this kind.
-/

namespace StepFlow

/-- A driver, as far as a walk can tell: how an attempt at a step may end. -/
abbrev Driver := EffectiveStep → UInt32 → AttemptEnd → Prop

/-- Attempts may end in any way. -/
def Driver.any : Driver := fun _ _ _ => True

namespace Walk

/-- The walk of a new job, before any node was entered. -/
def fresh (g : Graph) (now : Time) : Walk := ofData g (Run.opened g now)

section Step

variable (p : WalkPlan) (driver : Driver)

/-- What may happen next in a walk. Leaves are started when no node is ready, and the end of a leaf
is taken notice of when no other leaf can be started. -/
inductive Step : Walk → Walk → Prop
  | tick (w : Walk) (now : Time) : Step w (w.tick now)
  | enter {w : Walk} {i : Nat} {schedule : Schedule} (hpop : w.schedule.pop = some (i, schedule)) :
      Step w (enter p.graph i { w with schedule })
  | start {w : Walk} {i : Nat} {rest : List Nat} (hready : w.schedule.ready = [])
      (hwaiting : w.waiting = i :: rest) (hslot : w.running.length < p.slots) :
      Step w ({ w with waiting := rest }.startLeaf p i)
  | retry {w : Walk} {r : Running} {e : AttemptEnd} (hr : r ∈ w.running)
      (he : driver r.step r.attempt e) (hagain : Attempt.isRetried r.step r.attempt e = true) :
      Step w (w.retryLeaf r)
  | finish {w : Walk} {r : Running} {e : AttemptEnd} (hready : w.schedule.ready = [])
      (hwaiting : w.waiting = [] ∨ p.slots ≤ w.running.length) (hr : r ∈ w.running)
      (he : driver r.step r.attempt e) (hlast : Attempt.isRetried r.step r.attempt e = false) :
      Step w (w.finishLeaf p.graph r (Attempt.outcome r.step r.attempt e))

/-- Any number of steps. -/
abbrev Steps : Walk → Walk → Prop := Relation.ReflTransGen (Step p driver)

/-- A run of the walk of a new job up to `w`; `past` are the moments before, the latest first. -/
inductive Course (now : Time) : (past : List Walk) → (w : Walk) → Prop
  | start : Course now [] (fresh p.graph now)
  | step {past : List Walk} {w w' : Walk} (h : Course now past w) (hstep : Step p driver w w') :
      Course now (w :: past) w'

/-- Nothing is left to be done. -/
structure Over (w : Walk) : Prop where
  ready : w.schedule.ready = []
  waiting : w.waiting = []
  running : w.running = []

lemma over_iff {w : Walk} : Over w ↔ w.schedule.ready = [] ∧ w.waiting = [] ∧ w.running = [] :=
  ⟨fun h => ⟨h.ready, h.waiting, h.running⟩, fun h => ⟨h.1, h.2.1, h.2.2⟩⟩

instance : DecidablePred Over := fun _ => decidable_of_iff _ over_iff.symm

end Step

section Course

variable {p : WalkPlan} {driver : Driver} {now : Time} {past : List Walk} {w : Walk}

theorem Course.steps (h : Course p driver now past w) : Steps p driver (fresh p.graph now) w := by
  induction h with
  | start => exact .refl
  | step _ hstep ih => exact ih.tail hstep

theorem exists_course (h : Steps p driver (fresh p.graph now) w) :
    ∃ past, Course p driver now past w := by
  induction h with
  | refl => exact ⟨[], .start⟩
  | tail _ hstep ih =>
    obtain ⟨past, hpast⟩ := ih
    exact ⟨_, hpast.step hstep⟩

/-- Every moment of a run was reached, and the run went on from it. -/
theorem Course.between (h : Course p driver now past w) {v : Walk} (hv : v ∈ past) :
    Steps p driver (fresh p.graph now) v ∧ Steps p driver v w := by
  induction h with
  | start => cases hv
  | step hpast hstep ih =>
    rcases List.mem_cons.1 hv with rfl | hv
    · exact ⟨hpast.steps, .single hstep⟩
    · exact ⟨(ih hv).1, (ih hv).2.tail hstep⟩

theorem Steps.induction {P : Walk → Prop} (hfresh : P (fresh p.graph now))
    (hstep : ∀ w w', P w → Step p driver w w' → P w')
    (h : Steps p driver (fresh p.graph now) w) : P w := by
  induction h with
  | refl => exact hfresh
  | tail _ hlast ih => exact hstep _ _ ih hlast

end Course

/-! ### What walks do at once -/

section AtOnce

variable {p : WalkPlan} (driver : Driver)

/-- A walk that waits for the end of an attempt, or is over. -/
structure Waits (p : WalkPlan) (w : Walk) : Prop where
  ready : w.schedule.ready = []
  full : w.waiting = [] ∨ p.slots ≤ w.running.length

theorem enterAll_steps (w : Walk) :
    Steps p driver w (enterAll p.graph w) ∧ (enterAll p.graph w).schedule.ready = [] := by
  induction w using enterAll.induct p.graph with
  | case1 w hpop =>
    rw [enterAll]
    split
    · exact ⟨.refl, Schedule.pop_eq_none hpop⟩
    · simp_all
  | case2 w i schedule hpop ih =>
    rw [enterAll]
    split
    · simp_all
    · rename_i hpop'
      cases hpop.symm.trans hpop'
      exact ⟨.head (.enter hpop) ih.1, ih.2⟩

theorem startLeaf_schedule (i : Nat) (w : Walk) : (w.startLeaf p i).schedule = w.schedule := by
  unfold startLeaf
  split <;> rfl

theorem startLeaf_waiting (i : Nat) (w : Walk) (l : List Nat) :
    { w.startLeaf p i with waiting := l } = { w with waiting := l }.startLeaf p i := by
  unfold startLeaf
  split <;> rfl

theorem startLeaves_steps (w : Walk) (hready : w.schedule.ready = []) (l : List Nat) :
    Steps p driver { w with waiting := l } (startLeaves p l w) ∧ Waits p (startLeaves p l w) := by
  induction l generalizing w with
  | nil => exact ⟨.refl, hready, .inl rfl⟩
  | cons i rest ih =>
    unfold startLeaves
    split
    · rename_i hslot
      obtain ⟨hsteps, hwaits⟩ := ih (w.startLeaf p i) (by rw [startLeaf_schedule, hready])
      rw [startLeaf_waiting] at hsteps
      exact ⟨.head (.start hready rfl hslot) hsteps, hwaits⟩
    · rename_i hfull
      exact ⟨.refl, hready, .inr (Nat.le_of_not_lt hfull)⟩

/-- **Going on** is a number of steps, after which the walk waits. -/
theorem proceed_steps (w : Walk) :
    Steps p driver w (w.proceed p) ∧ Waits p (w.proceed p) := by
  obtain ⟨hsteps, hready⟩ := enterAll_steps (p := p) driver w
  obtain ⟨hsteps', hwaits⟩ := startLeaves_steps driver _ hready (enterAll p.graph w).waiting
  exact ⟨hsteps.trans hsteps', hwaits⟩

/-- **The end of an attempt** leads to a number of steps, after which the walk waits again. -/
theorem answer_steps {w : Walk} (hw : Waits p w) (i : Nat) {e : AttemptEnd}
    (he : ∀ r ∈ w.running, r.node = i → driver r.step r.attempt e) :
    Steps p driver w (w.answer p i e) ∧ Waits p (w.answer p i e) := by
  unfold answer
  split
  · exact ⟨.refl, hw⟩
  · rename_i r hfind
    have hr := List.mem_of_find?_eq_some hfind
    have hnode : r.node = i := by simpa using List.find?_some hfind
    split
    · rename_i hagain
      refine ⟨.single (.retry hr (he r hr hnode) hagain), hw.ready, hw.full.imp id ?_⟩
      intro hfull
      show p.slots ≤ (w.running.map _).length
      rwa [List.length_map]
    · rename_i hlast
      obtain ⟨hsteps, hwaits⟩ := proceed_steps (p := p) driver _
      exact ⟨.head (.finish hw.ready hw.full hr (he r hr hnode) (by simpa using hlast)) hsteps,
        hwaits⟩

/-- **A new job** starts with steps from its fresh walk. -/
theorem start_steps (p : WalkPlan) (driver : Driver) (now : Time) :
    Steps p driver (fresh p.graph now) (Run.start p now) ∧ Waits p (Run.start p now) :=
  proceed_steps driver (fresh p.graph now)

end AtOnce

/-! ### Jobs in time -/

section Timeline

variable {p : WalkPlan} {agent : Agent}

lemma foldl_dispatch_walk (due : List Running) (t : Timeline) :
    (due.foldl (Timeline.dispatch agent) t).walk = t.walk := by
  induction due generalizing t with
  | nil => rfl
  | cons r due ih => exact ih (Timeline.dispatch agent t r)

lemma dispatchAll_walk (limit : Option Time) (t : Timeline) :
    (Timeline.dispatchAll agent limit t).walk = t.walk := by
  unfold Timeline.dispatchAll
  split
  · rfl
  · exact foldl_dispatch_walk _ t

lemma runFor_steps (limit : Option Time) (n : Nat) {w₀ : Walk} {t : Timeline}
    (ht : Steps p .any w₀ t.walk) (hwaits : Waits p t.walk) :
    Steps p .any w₀ (Timeline.runFor p agent limit n t).walk ∧
      Waits p (Timeline.runFor p agent limit n t).walk := by
  induction n generalizing t with
  | zero => exact ⟨ht, hwaits⟩
  | succ n ih =>
    rw [Timeline.runFor]
    split
    · exact ⟨ht, hwaits⟩
    · rename_i q hq
      have htick : Steps p .any w₀ (t.walk.tick q.due) := ht.tail (.tick _ _)
      split
      · exact ⟨ht.tail (.tick _ _), hwaits.ready, hwaits.full⟩
      · obtain ⟨hsteps, hwaits'⟩ := answer_steps .any (w := t.walk.tick q.due) (e := q.ending)
          ⟨hwaits.ready, hwaits.full⟩ q.node fun _ _ _ => trivial
        refine ih ?_ ?_
        · rw [Timeline.step, dispatchAll_walk]
          exact htick.trans hsteps
        · rw [Timeline.step, dispatchAll_walk]
          exact hwaits'

/-- **A job in time** goes through steps only, whatever its agent does, up to where it waits. -/
theorem timeline_waits (start : Time) (limit : Option UInt64) :
    Steps p .any (fresh p.graph start) (Timeline.run p agent start limit).walk ∧
      Waits p (Timeline.run p agent start limit).walk := by
  obtain ⟨hsteps, hwaits⟩ := start_steps p .any start
  refine runFor_steps _ _ ?_ ?_
  · rw [dispatchAll_walk]
    exact hsteps
  · rw [dispatchAll_walk]
    exact hwaits

theorem timeline_steps (start : Time) (limit : Option UInt64) :
    Steps p .any (fresh p.graph start) (Timeline.run p agent start limit).walk :=
  (timeline_waits start limit).1

/-- A walk that waits for no attempt is over. -/
lemma Waits.over {w : Walk} (h : Waits p w) (hover : w.isOver = true) : Over w := by
  have hrunning : w.running = [] := List.isEmpty_iff.1 hover
  refine ⟨h.ready, h.full.resolve_right ?_, hrunning⟩
  rw [hrunning, Nat.not_le]
  exact Nat.lt_of_lt_of_le Nat.zero_lt_one (Nat.le_max_left 1 p.maxParallel)

end Timeline

end Walk

end StepFlow
