import StepFlow.Proofs.Walk.Skips

/-!
What is told of a job. The status of a leaf says what was told of it so far: nothing, that it
started, that it started and how it ended, or that it was skipped. A leaf is started or skipped when
all that is before it is settled, that is, when the end of all that was told.
-/

namespace StepFlow

/-! ### Stories -/

namespace Event

/-- The name of the step that an event is about. -/
def step? : Event → Option String
  | .jobStarted .. => none
  | .stepStarted step _ => some step
  | .stepRetrying step _ _ => some step
  | .stepFinished step _ _ _ => some step
  | .stepSkipped step _ => some step
  | .jobFinished _ => none

/-- The step of a name starts, or is skipped. -/
def Opens (name : String) (e : Event) : Prop :=
  (∃ path, e = .stepStarted name path) ∨ ∃ reason, e = .stepSkipped name reason

/-- The step of a name is over, or is skipped. -/
def Closes (name : String) (e : Event) : Prop :=
  (∃ s n error, e = .stepFinished name s n error) ∨ ∃ reason, e = .stepSkipped name reason

lemma Opens.step? {name : String} {e : Event} (h : e.Opens name) : e.step? = some name := by
  rcases h with ⟨path, rfl⟩ | ⟨reason, rfl⟩
  · rfl
  · rfl

end Event

/-- What is told of the step of a name. -/
def told (events : List Event) (name : String) : List Event :=
  events.filter fun e => e.step? = some name

/-- Nothing but retries of the step of a name. -/
def Retries (name : String) (events : List Event) : Prop :=
  ∀ e ∈ events, ∃ attempt most, e = .stepRetrying name attempt most

/-- What was told of the step of a name, according to its status. -/
def Story (name : String) : StepStatus → List Event → Prop
  | .pending, events => events = []
  | .running, events => ∃ path retries, events = .stepStarted name path :: retries ∧
      Retries name retries
  | .skipped, events => ∃ reason, events = [.stepSkipped name reason]
  | s, events => ∃ path retries n error,
      events = .stepStarted name path :: (retries ++ [.stepFinished name s n error]) ∧
        Retries name retries

/-- A leaf starts or is skipped when the end of all leaves before it was told. -/
def Ordered (g : Graph) (events : List Event) : Prop :=
  ∀ before e after, events = before ++ e :: after → ∀ i, g.tree.isLeaf i = true →
    e.Opens (g.name i) → ∀ k, g.tree.isLeaf k = true → g.Before k i →
      ∃ e' ∈ before, e'.Closes (g.name k)

section Story

variable {events : List Event} {e : Event} {name : String} {s : StepStatus}

lemma mem_told : e ∈ told events name ↔ e ∈ events ∧ e.step? = some name := by
  simp [told]

lemma told_concat : told (events ++ [e]) name =
    if e.step? = some name then told events name ++ [e] else told events name := by
  unfold told
  rw [List.filter_append]
  split
  · rename_i h
    simp [h]
  · rename_i h
    simp [h]

lemma Story.tried {path : String} {retries : List Event} {n : UInt32} {error : Option String}
    (hs : s.Tried) (hretries : Retries name retries) : Story name s
      (.stepStarted name path :: (retries ++ [.stepFinished name s n error])) := by
  rcases hs with rfl | rfl | rfl
  · exact ⟨path, retries, n, error, rfl, hretries⟩
  · exact ⟨path, retries, n, error, rfl, hretries⟩
  · exact ⟨path, retries, n, error, rfl, hretries⟩

lemma Story.of_tried (hs : s.Tried) (h : Story name s events) : ∃ path retries n error,
    events = .stepStarted name path :: (retries ++ [.stepFinished name s n error]) ∧
      Retries name retries := by
  rcases hs with rfl | rfl | rfl
  · exact h
  · exact h
  · exact h

/-- The story of a step that is over tells so. -/
lemma Story.closes (h : Story name s (told events name)) (hs : s = .skipped ∨ s.Tried) :
    ∃ e ∈ events, e.Closes name := by
  rcases hs with rfl | hs
  · obtain ⟨reason, heq⟩ := h
    refine ⟨.stepSkipped name reason, ?_, .inr ⟨reason, rfl⟩⟩
    exact (List.mem_filter.1 (heq ▸ List.mem_singleton_self _)).1
  · obtain ⟨path, retries, n, error, heq, -⟩ := h.of_tried hs
    have hmem : Event.stepFinished name s n error ∈ told events name := by
      rw [heq]
      simp
    exact ⟨_, (List.mem_filter.1 hmem).1, .inl ⟨s, n, error, rfl⟩⟩

/-- An event that opens no leaf too early may be told next. -/
lemma Ordered.concat {g : Graph} (h : Ordered g events)
    (he : ∀ i, g.tree.isLeaf i = true → e.Opens (g.name i) → ∀ k, g.tree.isLeaf k = true →
      g.Before k i → ∃ e' ∈ events, e'.Closes (g.name k)) : Ordered g (events ++ [e]) := by
  intro before e' after hsplit
  rcases List.eq_nil_or_concat after with rfl | ⟨after, last, rfl⟩
  · obtain ⟨rfl, heq⟩ := List.append_inj' hsplit rfl
    cases heq
    exact he
  · rw [List.concat_eq_append, ← List.cons_append, ← List.append_assoc] at hsplit
    obtain ⟨hinit, -⟩ := List.append_inj' hsplit rfl
    exact h before e' after hinit

end Story

namespace Walk

/-! ### The story of a walk -/

/-- What holds of the events at every moment of a walk. -/
structure Narrated (p : WalkPlan) (w : Walk) : Prop where
  opening : ∃ flow n rest, w.data.events = .jobStarted flow n :: rest ∧
    ∀ e ∈ rest, e.step? ≠ none
  story : ∀ i, p.graph.tree.isLeaf i = true → ∀ s, w.data.job.stepStatus p.graph i = some s →
    Story (p.graph.name i) s (told w.data.events (p.graph.name i))
  ordered : Ordered p.graph w.data.events

section Narrated

variable {f : Flow} {p : WalkPlan} {driver : Driver} {now : Time} {w w' : Walk} {i k : Nat}

theorem narrated_fresh (hg : f.compile = .ok p.graph) (now : Time) :
    Narrated p (fresh p.graph now) := by
  refine ⟨⟨_, _, [], rfl, fun e he => nomatch he⟩, ?_, ?_⟩
  · intro i hi s hs
    cases (Job.stepStatus_ofGraph hg (Graph.isStep_of_isLeaf hi)).symm.trans hs
    exact List.filter_eq_nil_iff.2 fun e he => by
      rw [List.mem_singleton.1 he]
      simp [Event.step?]
  · intro before e after hsplit i _ hopens
    have he : e ∈ (fresh p.graph now).data.events := by
      rw [hsplit]
      simp
    rw [List.mem_singleton.1 he] at hopens
    cases hopens.step?

/-- Nothing is told, and no status changes. -/
lemma Narrated.silent (h : Narrated p w) (hevents : w'.data.events = w.data.events)
    (hstatus : ∀ i, p.graph.tree.isLeaf i = true →
      w'.data.job.stepStatus p.graph i = w.data.job.stepStatus p.graph i) : Narrated p w' := by
  refine ⟨?_, ?_, ?_⟩
  · rw [hevents]
    exact h.opening
  · intro i hi s hs
    rw [hevents]
    exact h.story i hi s ((hstatus i hi).symm.trans hs)
  · rw [hevents]
    exact h.ordered

/-- The end of a leaf that is settled was told. -/
lemma Narrated.closes (hplaced : Placed p w) (hrecorded : Recorded p w) (h : Narrated p w)
    (hi : p.graph.tree.isLeaf i = true) (hs : i ∈ w.schedule.settled) :
    ∃ e ∈ w.data.events, e.Closes (p.graph.name i) := by
  obtain ⟨s, hstatus, hfits⟩ := hrecorded.fits i hi
  refine (h.story i hi s hstatus).closes ?_
  cases s with
  | pending => exact absurd hs hfits.1
  | running => exact absurd hs (hplaced.not_settled (List.mem_append_right _ hfits))
  | skipped => exact .inl rfl
  | success => exact .inr (.inl rfl)
  | failure => exact .inr (.inr (.inl rfl))
  | timeout => exact .inr (.inr (.inr rfl))

/-- Something is told of one step. If it is told that a leaf starts or is skipped, the leaf was
taken from the schedule, or is now. -/
lemma Narrated.tell (hg : f.compile = .ok p.graph) (hplaced : Placed p w)
    (hrecorded : Recorded p w) (h : Narrated p w) {e : Event}
    (hk : p.graph.tree.isStep k = true) (hname : e.step? = some (p.graph.name k))
    (hevents : w'.data.events = w.data.events ++ [e])
    (hstatus : ∀ i, p.graph.tree.isLeaf i = true → i ≠ k →
      w'.data.job.stepStatus p.graph i = w.data.job.stepStatus p.graph i)
    (hself : p.graph.tree.isLeaf k = true → ∀ s, w'.data.job.stepStatus p.graph k = some s →
      Story (p.graph.name k) s (told w.data.events (p.graph.name k) ++ [e]))
    (hopens : e.Opens (p.graph.name k) → k ∈ w.schedule.ready ∨ k ∈ w.taken) :
    Narrated p w' := by
  have hsame : ∀ i, p.graph.tree.isLeaf i = true → e.step? = some (p.graph.name i) → i = k := by
    intro i hi hstep
    have heq := Option.some.inj (hstep.symm.trans hname)
    exact (Graph.compile_name_inj hg (Graph.isStep_of_isLeaf hi) hk).1 heq
  refine ⟨?_, ?_, ?_⟩
  · obtain ⟨flow, n, rest, heq, hrest⟩ := h.opening
    refine ⟨flow, n, rest ++ [e], by rw [hevents, heq]; rfl, ?_⟩
    intro e' he'
    rcases List.mem_append.1 he' with he' | he'
    · exact hrest e' he'
    · rw [List.mem_singleton.1 he', hname]
      exact Option.some_ne_none _
  · intro i hi s hs
    rw [hevents, told_concat]
    by_cases hik : i = k
    · subst hik
      rw [if_pos hname]
      exact hself hi s hs
    · rw [if_neg fun hstep => hik (hsame i hi hstep)]
      exact h.story i hi s ((hstatus i hi hik).symm.trans hs)
  · rw [hevents]
    refine h.ordered.concat ?_
    intro i hi hi_opens l hl hbefore
    obtain rfl := hsame i hi hi_opens.step?
    exact h.closes hplaced hrecorded hl (hplaced.settled_of_before (hopens hi_opens) hbefore)

/-! ### Steps -/

lemma name_eq {n : TreeNode} (hn : p.graph.tree.node? i = some n) : p.graph.name i = n.name := by
  simp [Graph.name, Tree.name, hn]

lemma Placed.step_name (h : Placed p w) {r : Running} (hr : r ∈ w.running) :
    r.step.name = p.graph.name r.node := by
  have hleaf := h.leaf r.node (List.mem_append_right _ (mem_runningNodes hr))
  obtain ⟨n, step, hn, hstep, hname, -⟩ := resolve_of_leaf hleaf p.defaults
  cases hstep.symm.trans (h.resolved r hr)
  rw [hname, name_eq hn]

lemma Narrated.enter (hg : f.compile = .ok p.graph) (hplaced : Placed p w)
    (hrecorded : Recorded p w) (h : Narrated p w) {schedule : Schedule}
    (hpop : w.schedule.pop = some (k, schedule)) :
    Narrated p (Walk.enter p.graph k { w with schedule }) := by
  by_cases hdoomed : k ∈ w.doomed
  · have hk := hrecorded.isStep_of_doomed hg hdoomed
    obtain ⟨-, hsettled, hr⟩ := hplaced.fresh_of_pop hpop
    have hstatus : ∀ i, p.graph.tree.isLeaf i = true →
        (w.skip p.graph k failedBefore).data.job.stepStatus p.graph i =
          if i = k then some .skipped else w.data.job.stepStatus p.graph i := fun i hi =>
      stepStatus_skip hg hrecorded hi hk _
    rw [Walk.enter, if_pos hdoomed]
    refine h.tell hg hplaced hrecorded (e := .stepSkipped (p.graph.name k) failedBefore) hk rfl rfl
      (fun i hi hik => (hstatus i hi).trans (if_neg hik)) ?_ fun _ => .inl ?_
    · intro hleaf s hs
      cases ((hstatus k hleaf).trans (if_pos rfl)).symm.trans hs
      have hnone : told w.data.events (p.graph.name k) = [] :=
        h.story k hleaf _ (hrecorded.status_of_waiting hleaf hsettled hr)
      rw [hnone]
      exact ⟨failedBefore, rfl⟩
    · rw [(Schedule.pop_eq_some hpop).1]
      exact List.mem_cons_self
  · rw [Walk.enter, if_neg hdoomed]
    split
    · exact h.silent rfl fun i hi => rfl
    · exact h.silent rfl fun i hi => rfl

lemma Narrated.start (hg : f.compile = .ok p.graph) (hplaced : Placed p w)
    (hrecorded : Recorded p w) (h : Narrated p w) {rest : List Nat}
    (hwaiting : w.waiting = k :: rest) :
    Narrated p ({ w with waiting := rest }.startLeaf p k) := by
  obtain ⟨hleaf, hsettled, hr⟩ := hplaced.fresh_of_waiting hwaiting
  obtain ⟨n, step, hn, hstep, hname, -⟩ := resolve_of_leaf hleaf p.defaults
  have hstatus : ∀ i, p.graph.tree.isLeaf i = true →
      (w.startLeaf p k).data.job.stepStatus p.graph i =
        if i = k then some .running else w.data.job.stepStatus p.graph i := fun i hi =>
    stepStatus_startLeaf hg hrecorded hi hleaf
  rw [startLeaf_eq hstep] at hstatus ⊢
  have hstep_name : step.name = p.graph.name k := hname.trans (name_eq hn).symm
  refine h.tell hg hplaced hrecorded (e := .stepStarted step.name step.path)
    (Graph.isStep_of_isLeaf hleaf) (congrArg some hstep_name) rfl
    (fun i hi hik => (hstatus i hi).trans (if_neg hik)) ?_ fun _ => .inr ?_
  · intro _ s hs
    cases ((hstatus k hleaf).trans (if_pos rfl)).symm.trans hs
    have hnone : told w.data.events (p.graph.name k) = [] :=
      h.story k hleaf _ (hrecorded.status_of_waiting hleaf hsettled hr)
    rw [hnone, hstep_name]
    exact ⟨step.path, [], rfl, fun e he => nomatch he⟩
  · exact List.mem_append_right _ (List.mem_append_left _ (by simp [hwaiting]))

lemma Narrated.retry (hg : f.compile = .ok p.graph) (hplaced : Placed p w)
    (hrecorded : Recorded p w) (h : Narrated p w) {r : Running} (hr : r ∈ w.running) :
    Narrated p (w.retryLeaf r) := by
  have hnode := mem_runningNodes hr
  have hleaf := hplaced.leaf _ (List.mem_append_right _ hnode)
  have hname : r.step.name = p.graph.name r.node := hplaced.step_name hr
  refine h.tell hg hplaced hrecorded (e := Attempt.retrying r.step (r.attempt + 1))
    (Graph.isStep_of_isLeaf hleaf) (congrArg some hname) rfl (fun i hi hik => rfl)
    ?_ fun _ => .inr ?_
  · intro _ s hs
    cases (hrecorded.status_of_running hplaced hnode).symm.trans hs
    obtain ⟨path, retries, heq, hretries⟩ :=
      h.story _ hleaf _ (hrecorded.status_of_running hplaced hnode)
    rw [heq]
    refine ⟨path, retries ++ [_], rfl, ?_⟩
    intro e he
    rcases List.mem_append.1 he with he | he
    · exact hretries e he
    · refine ⟨r.attempt + 1, r.step.maxAttempts, ?_⟩
      rw [List.mem_singleton.1 he, ← hname]
      rfl
  · exact List.mem_append_right _ (List.mem_append_right _ hnode)

lemma Narrated.finish (hg : f.compile = .ok p.graph) (hplaced : Placed p w)
    (hrecorded : Recorded p w) (h : Narrated p w) {r : Running} (hr : r ∈ w.running)
    (o : Outcome) : Narrated p (w.finishLeaf p.graph r o) := by
  have hnode := mem_runningNodes hr
  have hleaf := hplaced.leaf _ (List.mem_append_right _ hnode)
  have hstatus : ∀ i, p.graph.tree.isLeaf i = true →
      (w.finishLeaf p.graph r o).data.job.stepStatus p.graph i =
        if i = r.node then some o.status else w.data.job.stepStatus p.graph i := fun i hi =>
    stepStatus_finishLeaf hg hrecorded hi hleaf o
  refine h.tell hg hplaced hrecorded
    (e := .stepFinished (p.graph.name r.node) o.status o.attempts o.error)
    (Graph.isStep_of_isLeaf hleaf) rfl rfl
    (fun i hi hik => (hstatus i hi).trans (if_neg hik)) ?_ fun _ => .inr ?_
  · intro _ s hs
    cases ((hstatus _ hleaf).trans (if_pos rfl)).symm.trans hs
    obtain ⟨path, retries, heq, hretries⟩ :=
      h.story _ hleaf _ (hrecorded.status_of_running hplaced hnode)
    rw [heq]
    exact .tried (outcome_tried o) hretries
  · exact List.mem_append_right _ (List.mem_append_right _ hnode)

theorem Narrated.step (hg : f.compile = .ok p.graph) (hplaced : Placed p w)
    (hrecorded : Recorded p w) (h : Narrated p w) (hstep : Step p driver w w') :
    Narrated p w' := by
  cases hstep with
  | tick => exact h.silent rfl fun i hi => rfl
  | enter hpop => exact h.enter hg hplaced hrecorded hpop
  | start _ hwaiting _ => exact h.start hg hplaced hrecorded hwaiting
  | retry hr => exact h.retry hg hplaced hrecorded hr
  | finish _ _ hr => exact h.finish hg hplaced hrecorded hr _

/-- **Every walk reached** from the walk of a new job was told as its statuses say. -/
theorem steps_narrated (hg : f.compile = .ok p.graph)
    (h : Steps p driver (fresh p.graph now) w) : Narrated p w := by
  induction h with
  | refl => exact narrated_fresh hg now
  | tail hsteps hstep ih =>
    obtain ⟨hplaced, hrecorded⟩ := steps_recorded hg hsteps
    exact ih.step hg hplaced hrecorded hstep

/-! ### The story of a job -/

/-- **The story of a job**: it starts and ends with the start and the end of the job, which are told
nowhere else; of each leaf it tells the start, then retries, then the end, or else only that it is
skipped; a leaf starts or is skipped only after the end of every leaf before it was told; and the
status of a leaf moves from pending to running to its end, or from pending to skipped. -/
theorem story_of_job (hg : f.compile = .ok p.graph) (h : Steps p driver (fresh p.graph now) w)
    (hover : Over w) :
    (∃ flow n middle status,
      (Run.complete p.graph w).events =
        .jobStarted flow n :: (middle ++ [.jobFinished status]) ∧
      ∀ e ∈ middle, e.step? ≠ none) ∧
    (∀ i, p.graph.tree.isLeaf i = true →
      (∃ path retries s n error,
        told (Run.complete p.graph w).events (p.graph.name i) =
          .stepStarted (p.graph.name i) path ::
            (retries ++ [.stepFinished (p.graph.name i) s n error]) ∧
        Retries (p.graph.name i) retries) ∨
      ∃ reason, told (Run.complete p.graph w).events (p.graph.name i) =
        [.stepSkipped (p.graph.name i) reason]) ∧
    Ordered p.graph (Run.complete p.graph w).events ∧
    ∀ i, p.graph.tree.isLeaf i = true →
      (fresh p.graph now).data.job.stepStatus p.graph i = some .pending ∧
      (∀ u v, Steps p driver (fresh p.graph now) u → Step p driver u v →
        ∃ s s', u.data.job.stepStatus p.graph i = some s ∧
          v.data.job.stepStatus p.graph i = some s' ∧ Moves s s') ∧
      (Run.complete p.graph w).job.stepStatus p.graph i =
        w.data.job.stepStatus p.graph i := by
  obtain ⟨hplaced, hrecorded⟩ := steps_recorded hg h
  have hnarrated := steps_narrated hg h
  obtain ⟨status, hevents⟩ := (Run.close_success hg hrecorded.job).1
  rw [← complete_eq hg hplaced hover] at hevents
  have htold : ∀ name, told (Run.complete p.graph w).events name = told w.data.events name := by
    intro name
    rw [hevents, told_concat, if_neg (by simp [Event.step?])]
  refine ⟨?_, ?_, ?_, fun i hi => ⟨?_, ?_, ?_⟩⟩
  · obtain ⟨flow, n, middle, heq, hmiddle⟩ := hnarrated.opening
    exact ⟨flow, n, middle, status, by rw [hevents, heq]; rfl, hmiddle⟩
  · intro i hi
    obtain ⟨s, hs, hwhere⟩ := hrecorded.ended hg hplaced hover hi
    have hstory := hnarrated.story i hi s hs
    rw [htold]
    rcases hwhere with ⟨rfl, -⟩ | ⟨htried, -⟩
    · exact .inr hstory
    · obtain ⟨path, retries, n, error, heq, hretries⟩ := hstory.of_tried htried
      exact .inl ⟨path, retries, s, n, error, heq, hretries⟩
  · rw [hevents]
    exact hnarrated.ordered.concat fun i _ hopens => by cases hopens.step?
  · exact Job.stepStatus_ofGraph hg (Graph.isStep_of_isLeaf hi)
  · intro u v hu hv
    obtain ⟨hplacedu, hrecordedu⟩ := steps_recorded hg hu
    exact hrecordedu.moves hg hplacedu hv hi
  · exact complete_stepStatus hg h hover hi

theorem story_of_job_release : ∃ g, Graph.release.compile = .ok g ∧
    Steps { graph := g } .any (fresh g 0) (releaseRun g) ∧ Over (releaseRun g) ∧
    Ordered g (Run.complete g (releaseRun g)).events ∧
    told (Run.complete g (releaseRun g)).events (g.name 4) ≠ [] := by
  obtain ⟨g, hg, hover, hleaf, -⟩ := releaseRun_over
  have hsteps : Steps { graph := g } .any (fresh g 0) (releaseRun g) := timeline_steps 0 none
  obtain ⟨-, htold, hordered, -⟩ := story_of_job (p := { graph := g }) hg hsteps hover
  refine ⟨g, hg, hsteps, hover, hordered, ?_⟩
  rcases htold 4 hleaf with ⟨path, retries, s, n, error, heq, -⟩ | ⟨reason, heq⟩
  · simp [heq]
  · simp [heq]

end Narrated

end Walk

end StepFlow
