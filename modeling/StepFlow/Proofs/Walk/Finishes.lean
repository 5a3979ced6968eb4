import StepFlow.Proofs.Walk.Afterwards
import StepFlow.Proofs.Walk.CutShort

/-!
Whose end is told. Of a leaf that was started its end is told, once and with the status that is
recorded, before the end of the job is told; but not if the time limit of the job strikes while the
leaf is being run. Its record says so, and nothing is told.
-/

namespace StepFlow

/-! ### Stories with a start -/

section Story

variable {events : List Event} {name path : String} {s : StepStatus}

lemma Retries.not_started (h : Retries name events) (path : String) :
    .stepStarted name path ∉ events := by
  intro hmem
  obtain ⟨attempt, most, heq⟩ := h _ hmem
  cases heq

lemma Retries.not_finished (h : Retries name events) (s : StepStatus) (n : UInt32)
    (error : Option String) : .stepFinished name s n error ∉ events := by
  intro hmem
  obtain ⟨attempt, most, heq⟩ := h _ hmem
  cases heq

/-- A step of which a start was told is being run, or was tried and is over. -/
lemma Story.of_started (h : Story name s events) (hmem : .stepStarted name path ∈ events) :
    (s = .running ∧ ∃ retries, events = .stepStarted name path :: retries ∧
      Retries name retries) ∨
    (s.Tried ∧ ∃ retries n error, events =
        .stepStarted name path :: (retries ++ [.stepFinished name s n error]) ∧
      Retries name retries) := by
  have htried : s.Tried → ∃ retries n error, events =
        .stepStarted name path :: (retries ++ [.stepFinished name s n error]) ∧
      Retries name retries := by
    intro hs
    obtain ⟨path', retries, n, error, rfl, hretries⟩ := h.of_tried hs
    have hpath : path = path' := by simpa [hretries.not_started path] using hmem
    exact ⟨retries, n, error, by rw [hpath], hretries⟩
  cases s with
  | pending =>
    rw [Story] at h
    rw [h] at hmem
    cases hmem
  | skipped =>
    obtain ⟨reason, rfl⟩ := h
    cases List.mem_singleton.1 hmem
  | running =>
    obtain ⟨path', retries, rfl, hretries⟩ := h
    have hpath : path = path' := by simpa [hretries.not_started path] using hmem
    exact .inl ⟨rfl, retries, by rw [hpath], hretries⟩
  | success => exact .inr ⟨.inl rfl, htried (.inl rfl)⟩
  | failure => exact .inr ⟨.inr (.inl rfl), htried (.inr (.inl rfl))⟩
  | timeout => exact .inr ⟨.inr (.inr rfl), htried (.inr (.inr rfl))⟩

end Story

namespace Walk

open Lifecycle (Data)

section Finishes

variable {f : Flow} {p : WalkPlan} {driver : Driver} {now : Time} {w : Walk} {d : Data} {i : Nat}
  {name path : String}

/-! ### Starts and ends -/

/-- The start of the job is told first and its end last, and between them steps are told of. -/
lemma Ended.opening (hg : f.compile = .ok p.graph) (h : Steps p driver (fresh p.graph now) w)
    (hend : Ended p w d) : ∃ flow n middle status,
      d.events = .jobStarted flow n :: (middle ++ [.jobFinished status]) ∧
        ∀ e ∈ middle, e.step? ≠ none := by
  obtain ⟨flow, n, rest, hopening, hrest⟩ := (steps_narrated hg h).opening
  obtain ⟨skips, status, hevents, hskips⟩ := hend.events hg h
  refine ⟨flow, n, rest ++ skips, status, by rw [hevents, hopening]; rfl, fun e he => ?_⟩
  rcases List.mem_append.1 he with he | he
  · exact hrest e he
  · obtain ⟨k, -, rfl⟩ := hskips e he
    exact Option.some_ne_none _

/-- Only leaves are started, and only by the walk. -/
lemma Ended.started (hg : f.compile = .ok p.graph) (h : Steps p driver (fresh p.graph now) w)
    (hend : Ended p w d) (hmem : .stepStarted name path ∈ d.events) :
    .stepStarted name path ∈ w.data.events ∧
      ∃ i, p.graph.tree.isLeaf i = true ∧ p.graph.name i = name := by
  obtain ⟨skips, status, hevents, hskips⟩ := hend.events hg h
  have hmem' : .stepStarted name path ∈ w.data.events := by
    rw [hevents] at hmem
    rcases List.mem_append.1 hmem with hmem | hmem
    · rcases List.mem_append.1 hmem with hmem | hmem
      · exact hmem
      · obtain ⟨k, -, heq⟩ := hskips _ hmem
        cases heq
    · cases List.mem_singleton.1 hmem
  exact ⟨hmem', (steps_heard hg h).started name path hmem'⟩

/-- **Whose end is told**, whatever way the job ends. All that is told stands between the start and
the end of the job. If it is told that a step starts, the step is a leaf; retries follow, and then its
end with the status that is recorded, and nothing else is told of it, just when the leaf is not being
run when the job ends. If it is, its end is not told, and it is recorded that it timed out. -/
theorem finishes_unless_cut_off (hg : f.compile = .ok p.graph)
    (h : Steps p driver (fresh p.graph now) w) (hend : Ended p w d) :
    (∃ flow n middle status, d.events = .jobStarted flow n :: (middle ++ [.jobFinished status]) ∧
      ∀ e ∈ middle, e.step? ≠ none) ∧
    ∀ name path, .stepStarted name path ∈ d.events →
      ∃ i, p.graph.tree.isLeaf i = true ∧ p.graph.name i = name ∧
        ((∃ retries s n error, told d.events name =
            .stepStarted name path :: (retries ++ [.stepFinished name s n error]) ∧
          Retries name retries ∧ d.job.stepStatus p.graph i = some s) ↔
          ∀ r ∈ w.running, r.node ≠ i) ∧
        ((∃ r ∈ w.running, r.node = i) → (∀ s n error, .stepFinished name s n error ∉ d.events) ∧
          d.job.stepStatus p.graph i = some .timeout) := by
  refine ⟨hend.opening hg h, ?_⟩
  intro name path hmem
  obtain ⟨hmem', i, hi, rfl⟩ := hend.started hg h hmem
  obtain ⟨hplaced, hrecorded⟩ := steps_recorded hg h
  obtain ⟨s, hs, hfits⟩ := hrecorded.fits i hi
  have hrunning : (∃ r ∈ w.running, r.node = i) ↔ i ∈ w.runningNodes := List.mem_map.symm
  have hnot : (∀ r ∈ w.running, r.node ≠ i) ↔ i ∉ w.runningNodes := by
    rw [← hrunning]
    push Not
    rfl
  refine ⟨i, hi, rfl, ?_⟩
  rw [hrunning, hnot]
  have htold := hend.told hg h hi
  have hstory := (steps_narrated hg h).story i hi s hs
  rcases hstory.of_started (mem_told.2 ⟨hmem', rfl⟩) with
    ⟨rfl, retries, heq, hretries⟩ | ⟨htried, retries, n, error, heq, hretries⟩
  · -- a leaf that is being run: nothing but its retries was told since it started
    rw [hs, if_neg (by simp), List.append_nil, heq] at htold
    have hunfinished : ∀ s n error, .stepFinished (p.graph.name i) s n error ∉ d.events := by
      intro s n error hfinished
      have hin := mem_told.2 ⟨hfinished, rfl⟩
      rw [htold] at hin
      simp [hretries.not_finished s n error] at hin
    refine ⟨iff_of_false ?_ (not_not_intro hfits), fun _ =>
      ⟨hunfinished, hend.status_of_running hg h hfits⟩⟩
    rintro ⟨retries', s, n, error, heq', -⟩
    have hin : .stepFinished (p.graph.name i) s n error ∈ told d.events (p.graph.name i) := by
      simp [heq']
    exact hunfinished s n error (mem_told.1 hin).1
  · -- a leaf that is over: its end was told, and its record stays
    have hterminal : s.isTerminal = true := by
      rcases htried with rfl | rfl | rfl <;> rfl
    have hout : i ∉ w.runningNodes := by
      intro hin
      cases hs.symm.trans (hrecorded.status_of_running hplaced hin)
      cases hterminal
    rw [hs, if_neg (by simpa using (tried_ne htried).1), List.append_nil, heq] at htold
    refine ⟨iff_of_true ?_ hout, fun hin => absurd hin hout⟩
    exact ⟨retries, s, n, error, htold, hretries, hend.status_of_over hg h hi hs hterminal⟩

end Finishes

/-! ### A check that is cut off -/

/-- How that run ends. -/
def hangingEnd (g : Graph) : Data :=
  Timeline.finish { graph := g } (Timeline.run { graph := g } (hangingAt "lint") 0 (some 1))

lemma hangingRun_told : ∃ g, nightly.compile = .ok g ∧ (hangingRun g).runningNodes = [3] ∧
    g.name 3 = "lint" ∧
    told (hangingEnd g).events "lint" = [.stepStarted "lint" "root/checks/lint"] ∧
    told (hangingEnd g).events "build" =
      [.stepStarted "build" "root/build", .stepFinished "build" .success 1 none] :=
  Graph.exists_compiled (by cbv)

/-- The first check is started, and its end is not told. -/
theorem started_unfinished_nightly : ∃ g, nightly.compile = .ok g ∧
    Steps { graph := g } .any (fresh g 0) (hangingRun g) ∧
    Ended { graph := g } (hangingRun g) (hangingEnd g) ∧
    .stepStarted "lint" "root/checks/lint" ∈ (hangingEnd g).events ∧
    ∀ s n error, .stepFinished "lint" s n error ∉ (hangingEnd g).events := by
  obtain ⟨g, hg, -, -, htold, -⟩ := hangingRun_told
  refine ⟨g, hg, timeline_steps 0 (some 1), timeline_ended 0 (some 1), ?_, fun s n error hmem => ?_⟩
  · exact (mem_told.1 (htold ▸ List.mem_singleton_self _)).1
  · have hin := mem_told.2 ⟨hmem, rfl⟩
    rw [htold] at hin
    cases List.mem_singleton.1 hin

/-- The step before the checks is over when they are cut off. -/
theorem finishes_unless_cut_off_nightly : ∃ g, nightly.compile = .ok g ∧
    Steps { graph := g } .any (fresh g 0) (hangingRun g) ∧
    Ended { graph := g } (hangingRun g) (hangingEnd g) ∧
    .stepStarted "build" "root/build" ∈ (hangingEnd g).events ∧
    ∃ i, g.name i = "build" ∧ ∃ retries s n error,
      told (hangingEnd g).events "build" =
        .stepStarted "build" "root/build" :: (retries ++ [.stepFinished "build" s n error]) ∧
      Retries "build" retries ∧ (hangingEnd g).job.stepStatus g i = some s := by
  obtain ⟨g, hg, hrunning, hname, -, htold⟩ := hangingRun_told
  have hsteps : Steps { graph := g } .any (fresh g 0) (hangingRun g) := timeline_steps 0 (some 1)
  have hend : Ended { graph := g } (hangingRun g) (hangingEnd g) := timeline_ended 0 (some 1)
  have hmem : .stepStarted "build" "root/build" ∈ (hangingEnd g).events :=
    (mem_told.1 (htold ▸ List.mem_cons_self)).1
  obtain ⟨-, hstarted⟩ := finishes_unless_cut_off (p := { graph := g }) hg hsteps hend
  obtain ⟨i, -, hi, hiff, -⟩ := hstarted "build" "root/build" hmem
  refine ⟨g, hg, hsteps, hend, hmem, i, hi, hiff.2 ?_⟩
  rintro r hr rfl
  have hnode := mem_runningNodes hr
  rw [hrunning, List.mem_singleton] at hnode
  rw [hnode, hname] at hi
  exact absurd hi (by decide)

end Walk

end StepFlow
