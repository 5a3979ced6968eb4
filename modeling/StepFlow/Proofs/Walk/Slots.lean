import StepFlow.Proofs.Walk.Finishes
import StepFlow.Proofs.Walk.Timelines

/-!
How many steps are run at once. A leaf takes up a slot from the moment it is started until its end is
told, and never more slots are taken than there are. Whenever a job waits for the end of an attempt all
slots are taken, or else there is nothing to take one: every leaf with all its parents settled was
started or skipped (`slots_used`).
-/

namespace StepFlow

/-- The name of the step that starts. -/
def Event.started? : Event → Option String
  | .stepStarted name _ => some name
  | _ => none

/-- The name of the step that is over. -/
def Event.finished? : Event → Option String
  | .stepFinished name _ _ _ => some name
  | _ => none

/-- The leaves that were started and are not over yet, by what was told. -/
def underWay (g : Graph) (events : List Event) : List Nat :=
  (List.range g.size).filter fun i => g.tree.isLeaf i ∧ g.name i ∈ events.filterMap Event.started? ∧
    g.name i ∉ events.filterMap Event.finished?

section Told

variable {events : List Event} {name : String} {s : StepStatus}

lemma mem_started_iff : name ∈ events.filterMap Event.started? ↔
    ∃ path, .stepStarted name path ∈ told events name := by
  simp only [List.mem_filterMap, mem_told]
  constructor
  · rintro ⟨e, he, hname⟩
    cases e with
    | stepStarted step path =>
      cases hname
      exact ⟨path, he, rfl⟩
    | _ => cases hname
  · rintro ⟨path, he, -⟩
    exact ⟨_, he, rfl⟩

lemma mem_finished_iff : name ∈ events.filterMap Event.finished? ↔
    ∃ s n error, .stepFinished name s n error ∈ told events name := by
  simp only [List.mem_filterMap, mem_told]
  constructor
  · rintro ⟨e, he, hname⟩
    cases e with
    | stepFinished step s n error =>
      cases hname
      exact ⟨s, n, error, he, rfl⟩
    | _ => cases hname
  · rintro ⟨s, n, error, he, -⟩
    exact ⟨_, he, rfl⟩

/-- A step is under way, by its story, when its status is running. -/
lemma Story.started_not_finished_iff (h : Story name s (told events name)) :
    name ∈ events.filterMap Event.started? ∧ name ∉ events.filterMap Event.finished? ↔
      s = .running := by
  rw [mem_started_iff, mem_finished_iff]
  constructor
  · rintro ⟨⟨path, hstarted⟩, hopen⟩
    rcases h.of_started hstarted with ⟨hs, -⟩ | ⟨-, retries, n, error, heq, -⟩
    · exact hs
    · refine absurd ⟨s, n, error, ?_⟩ hopen
      rw [heq]
      simp
  · rintro rfl
    obtain ⟨path, retries, heq, hretries⟩ := h
    rw [heq]
    refine ⟨⟨path, List.mem_cons_self⟩, ?_⟩
    rintro ⟨s, n, error, hmem⟩
    rcases List.mem_cons.1 hmem with hmem | hmem
    · cases hmem
    · exact hretries.not_finished s n error hmem

lemma StepStatus.cases_of_ne_pending (h : s ≠ .pending) : s = .running ∨ s = .skipped ∨ s.Tried := by
  cases s with
  | pending => exact absurd rfl h
  | _ => simp [Tried]

end Told

namespace Walk

variable {f : Flow} {p : WalkPlan} {driver : Driver} {now : Time} {w : Walk} {i : Nat}

/-- The walk of a new job when it waits: after its start, and whenever the end of an attempt was taken
notice of, in any order and at any time. -/
inductive Rests (p : WalkPlan) (driver : Driver) (now : Time) : Walk → Prop
  | start : Rests p driver now (Run.start p now)
  | tick {w : Walk} (h : Rests p driver now w) (later : Time) : Rests p driver now (w.tick later)
  | answer {w : Walk} {i : Nat} {e : AttemptEnd} (h : Rests p driver now w)
      (he : ∀ r ∈ w.running, r.node = i → driver r.step r.attempt e) :
      Rests p driver now (w.answer p i e)

lemma Rests.waits (h : Rests p driver now w) :
    Steps p driver (fresh p.graph now) w ∧ Waits p w := by
  induction h with
  | start => exact start_steps p driver now
  | tick _ later ih => exact ⟨ih.1.tail (.tick _ later), ih.2.ready, ih.2.full⟩
  | answer _ he ih =>
    obtain ⟨hsteps, hwaits⟩ := answer_steps driver ih.2 _ he
    exact ⟨ih.1.trans hsteps, hwaits⟩

/-! ### No more than there are slots -/

/-- **Every step** leaves no more leaves in their slots than there are. -/
lemma running_le_of_step {w' : Walk} (h : w.running.length ≤ p.slots) (hplaced : Placed p w)
    (hstep : Step p driver w w') : w'.running.length ≤ p.slots := by
  cases hstep with
  | tick => exact h
  | enter hpop =>
    rw [enter_running]
    exact h
  | @start i rest _ hwaiting hslot =>
    have hleaf := hplaced.leaf i (by simp [hwaiting])
    obtain ⟨n, step, -, hstep, -⟩ := resolve_of_leaf hleaf p.defaults
    rw [startLeaf_eq hstep]
    show (w.running ++ [_]).length ≤ p.slots
    rw [List.length_append]
    exact hslot
  | retry =>
    show (w.running.map _).length ≤ p.slots
    rwa [List.length_map]
  | finish =>
    show (w.running.filter _).length ≤ p.slots
    exact (List.length_filter_le _ _).trans h

theorem running_le (hg : f.compile = .ok p.graph) (h : Steps p driver (fresh p.graph now) w) :
    w.running.length ≤ p.slots := by
  have hall := h.induction (P := fun w => Placed p w ∧ w.running.length ≤ p.slots)
    ⟨placed_fresh p now, Nat.zero_le _⟩ fun _ _ hw hstep =>
    ⟨hw.1.step (Graph.compile_sound hg) hstep, running_le_of_step hw.2 hw.1 hstep⟩
  exact hall.2

/-! ### Slots and what was told -/

lemma mem_underWay_iff (hg : f.compile = .ok p.graph) (hplaced : Placed p w)
    (hrecorded : Recorded p w) (hnarrated : Narrated p w) :
    i ∈ underWay p.graph w.data.events ↔ i ∈ w.runningNodes := by
  unfold underWay
  rw [List.mem_filter, List.mem_range, decide_eq_true_eq]
  constructor
  · rintro ⟨-, hi, hopen⟩
    obtain ⟨s, hs, hfits⟩ := hrecorded.fits i hi
    obtain rfl := (hnarrated.story i hi s hs).started_not_finished_iff.1 hopen
    exact hfits
  · intro hr
    have hi := hplaced.leaf i (List.mem_append_right _ hr)
    have hs := hrecorded.status_of_running hplaced hr
    refine ⟨((Graph.compile_isStep_iff hg).1 (Graph.isStep_of_isLeaf hi)).2, hi, ?_⟩
    exact (hnarrated.story i hi _ hs).started_not_finished_iff.2 rfl

/-- A leaf that was started and is not over yet takes up one slot. -/
lemma length_underWay (hg : f.compile = .ok p.graph) (hplaced : Placed p w)
    (hrecorded : Recorded p w) (hnarrated : Narrated p w) :
    (underWay p.graph w.data.events).length = w.running.length := by
  have hperm : (underWay p.graph w.data.events).Perm w.runningNodes :=
    (List.perm_ext_iff_of_nodup (List.nodup_range.filter _) hplaced.running_nodup.1).2
      fun i => mem_underWay_iff hg hplaced hrecorded hnarrated
  rw [hperm.length_eq, runningNodes, List.length_map]

/-- When no leaf waits for a slot, a leaf with all its parents settled was started or skipped. -/
lemma status_of_settled_parents (hg : f.compile = .ok p.graph) (hplaced : Placed p w)
    (hrecorded : Recorded p w) (hready : w.schedule.ready = []) (hwaiting : w.waiting = [])
    (hi : p.graph.tree.isLeaf i = true) (hparents : ∀ j ∈ p.graph.parents i, j ∈ w.schedule.settled) :
    ∃ s, w.data.job.stepStatus p.graph i = some s ∧ (s = .running ∨ s = .skipped ∨ s.Tried) := by
  obtain ⟨s, hs, hfits⟩ := hrecorded.fits i hi
  refine ⟨s, hs, StepStatus.cases_of_ne_pending ?_⟩
  rintro rfl
  -- the leaf was offered, so it was taken, and is settled or being run
  have hlt := ((Graph.compile_isStep_iff hg).1 (Graph.isStep_of_isLeaf hi)).2
  have hoffered := (hplaced.counts.offered i).2 ⟨hlt, Schedule.isReady_iff.2 hparents⟩
  rw [hready, taken, hwaiting, List.nil_append, List.mem_append] at hoffered
  rcases hoffered with hready | hsettled | hrunning
  · cases hready
  · exact hfits.1 hsettled
  · exact hfits.2 hrunning

/-- **How many steps are run at once.** At every moment no more leaves were started and are not over yet
than there are slots, of which there is always one. And whenever the walk waits, as many as there are
slots are under way, or every leaf with all its parents settled is running, was skipped, or was tried and
is over. -/
theorem slots_used (hg : f.compile = .ok p.graph) (driver : Driver) (now : Time) :
    (∀ w, Steps p driver (fresh p.graph now) w →
      (underWay p.graph w.data.events).length ≤ max 1 p.maxParallel) ∧
    ∀ w, Rests p driver now w →
      (underWay p.graph w.data.events).length = max 1 p.maxParallel ∨
      ∀ i, p.graph.tree.isLeaf i = true → (∀ j ∈ p.graph.parents i, j ∈ w.schedule.settled) →
        ∃ s, w.data.job.stepStatus p.graph i = some s ∧ (s = .running ∨ s = .skipped ∨ s.Tried) := by
  have hlength : ∀ w, Steps p driver (fresh p.graph now) w →
      (underWay p.graph w.data.events).length = w.running.length := by
    intro w h
    obtain ⟨hplaced, hrecorded⟩ := steps_recorded hg h
    exact length_underWay hg hplaced hrecorded (steps_narrated hg h)
  refine ⟨fun w h => ?_, fun w h => ?_⟩
  · rw [hlength w h]
    exact running_le hg h
  · obtain ⟨hsteps, hwaits⟩ := h.waits
    obtain ⟨hplaced, hrecorded⟩ := steps_recorded hg hsteps
    rw [hlength w hsteps]
    rcases hwaits.full with hwaiting | hfull
    · exact .inr fun i hi => status_of_settled_parents hg hplaced hrecorded hwaits.ready hwaiting hi
    · exact .inl ((running_le hg hsteps).antisymm hfull)

/-! ### Two mirrors and one slot -/

/-- Two mirrors that may be updated at once when the sources are there. -/
def mirrors : Flow where
  steps :=
    [("fetch", { spec := { bash := some "make fetch" } }),
      ("north", { spec := { bash := some "make north", dependencies := ["fetch"] } }),
      ("south", { spec := { bash := some "make south", dependencies := ["fetch"] } })]

/-- The plan without any slot but the one that there always is. -/
def narrow (g : Graph) : WalkPlan := { graph := g, maxParallel := 0 }

/-- The walk when the sources are there. -/
def fetched (g : Graph) : Walk :=
  (Run.start (narrow g) 0).answer (narrow g) 1 (.answered (.response {}))

lemma fetched_waits : ∃ g, mirrors.compile = .ok g ∧ g.tree.isLeaf 3 = true ∧
    (∀ j ∈ g.parents 3, j ∈ (fetched g).schedule.settled) ∧
    (fetched g).data.job.stepStatus g 3 = some .pending :=
  Graph.exists_compiled (by cbv)

/-- One of the mirrors waits, so the only slot is taken. -/
theorem slots_used_mirrors : ∃ g, mirrors.compile = .ok g ∧
    Rests (narrow g) .any 0 (fetched g) ∧
    (fetched g).data.job.stepStatus g 3 = some .pending ∧
    (underWay g (fetched g).data.events).length = 1 := by
  obtain ⟨g, hg, hleaf, hparents, hpending⟩ := fetched_waits
  have hrests : Rests (narrow g) .any 0 (fetched g) := Rests.start.answer fun _ _ _ => trivial
  obtain ⟨-, hfull⟩ := slots_used (p := narrow g) hg .any 0
  refine ⟨g, hg, hrests, hpending, (hfull _ hrests).resolve_right fun hall => ?_⟩
  obtain ⟨s, hs, htried⟩ := hall 3 hleaf hparents
  cases hpending.symm.trans hs
  simp [StepStatus.Tried] at htried

end Walk

end StepFlow
