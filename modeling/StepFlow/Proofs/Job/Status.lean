import StepFlow.Job.Lifecycle
import StepFlow.Proofs.Machine.Chain

/-!
The status of a job under any calls. A transition that the lifecycle does not know does nothing, and
neither does any transition of a job that is over; all others bring the job to their target, or to
failure if it should succeed and a step stands against that. So a job ends once, it is told of when
it ends, and it stays as it ended.
-/

namespace StepFlow.Lifecycle

/-! ### The transitions -/

/-- The lifecycle leads from one status to the other. -/
def leads : (source target : JobStatus) → Bool
  | .pending, .created | .created, .queued | .queued, .running | .queued, .cancelled => true
  | .running, .failure | .running, .timeout | .running, .cancelled | .running, .success => true
  | _, _ => false

theorem action?_eq (source target : JobStatus) : machine.action? (transition source target) =
    if leads source target then
      some (if target = .success then succeed else setStatus target)
    else none := by
  cases source <;> cases target <;> rfl

theorem hook?_eq (s : JobStatus) : machine.hook? s.text =
    if s.isTerminal then some fun v => ({ v with data := v.data.tellFinished }, none) else none := by
  cases s <;> rfl

section Actions

variable (s : JobStatus) (v : View Data)

theorem setStatus_canRun : (setStatus s).canRun v = !v.data.job.status.isTerminal := rfl

theorem succeed_accept : succeed.accept = .look fun v =>
    if v.data.job.status.isTerminal then .change (fun v => { v with skip := true }) .done
    else if v.data.job.hasBlocking then
      .transit JobStatus.running.text JobStatus.failure.text .done
    else .change (fun v => { v with data := v.data.setStatus .success }) .done := rfl

theorem succeed_onFinally : succeed.onFinally v = (v, none) := rfl

end Actions

/-! ### Statuses -/

namespace Data

variable (d : Data) (s : JobStatus)

theorem setStatus_status : (d.setStatus s).job.status = s := by
  cases s <;> rfl

theorem setStatus_steps : (d.setStatus s).job.steps = d.job.steps := by
  cases s <;> rfl

theorem setStatus_finished (hd : d.job.finished = none) :
    (d.setStatus s).job.finished.isSome = s.isTerminal := by
  cases s <;> simp [setStatus, JobStatus.isTerminal, hd]

/-- Only a job that starts to run is told of when its status is set. -/
theorem setStatus_events (hs : s ≠ .running) : (d.setStatus s).events = d.events := by
  cases s with
  | running => exact absurd rfl hs
  | _ => rfl

/-- Brings a job to a status, and tells so if that is the end. -/
def bring : Data := if s.isTerminal then (d.setStatus s).tellFinished else d.setStatus s

theorem bring_of_isTerminal (hs : s.isTerminal = true) :
    d.bring s = (d.setStatus s).tellFinished := if_pos hs

theorem bring_job : (d.bring s).job = (d.setStatus s).job := by
  unfold bring
  split <;> rfl

end Data

/-! ### What a transition does -/

/-- The status that a transition brings a job to, if it does anything. -/
def outcome? (source target : JobStatus) (j : Job) : Option JobStatus :=
  if j.status.isTerminal || !leads source target then none
  else if target = .success && j.hasBlocking then some .failure
  else some target

/-- The data after a transition. -/
def Data.moved (source target : JobStatus) (d : Data) : Data :=
  ((outcome? source target d.job).map d.bring).getD d

section Execute

open Machine (runAction ask)

variable {v : View Data} {t : Transition} {target : JobStatus}

lemma runAction_setStatus_eq (run : Transition → Context Data → Option (Ran Data)) (n : Nat)
    (settled : Option String) : runAction run t (setStatus target) ⟨v, n, settled⟩ =
      some ⟨⟨{ v with data := v.data.setStatus target }, n, settled⟩, [.accept t, .finally_ t],
        none⟩ := rfl

/-- The outermost action is left: the end of the job is told, unless hooks are skipped. -/
lemma leave_outermost (v : View Data) (target : JobStatus) (trail : List Call) : ∃ v' trail',
    machine.leave ⟨⟨v, 1, some target.text⟩, trail, none⟩ = ⟨⟨v', 0, none⟩, trail', none⟩ ∧
      v'.data = if target.isTerminal && !v.skip then v.data.tellFinished else v.data := by
  have hleave : machine.leave ⟨⟨v, 1, some target.text⟩, trail, none⟩ =
      { machine.finishChain ⟨v, 0, some target.text⟩ with
        trail := trail ++ (machine.finishChain ⟨v, 0, some target.text⟩).trail } := rfl
  rw [hleave, Machine.finishChain_eq _ rfl, hook?_eq]
  cases target.isTerminal with
  | false => exact ⟨_, _, rfl, rfl⟩
  | true =>
    cases hskip : v.skip with
    | false => exact ⟨_, _, rfl, by simp⟩
    | true => exact ⟨_, _, rfl, by simp⟩

/-- A success inside the outermost action of a job that runs turns into a failure. -/
lemma execute_failure (hv : v.data.job.status.isTerminal = false) (settled : Option String) :
    ∃ v' trail', machine.execute 2 (transition .running .failure) ⟨v, 1, settled⟩ =
      some ⟨⟨v', 1, some JobStatus.failure.text⟩, trail', none⟩ ∧ v'.skip = v.skip ∧
        v'.data = v.data.setStatus .failure := by
  have hbegun : Machine.begun ⟨v, 1, settled⟩ = ⟨v, 1, settled⟩ := rfl
  have hcan : (setStatus .failure).canRun (ask (transition .running .failure) v) = true := by
    simp [setStatus_canRun, ask, hv]
  rw [Machine.execute_succ, hbegun, action?_eq]
  simp only [leads, if_true, reduceCtorEq, if_false, hcan, runAction_setStatus_eq]
  exact ⟨_, _, rfl, rfl, rfl⟩

/-- A job that should succeed is left alone if it is over, fails if a step stands against it, and
else succeeds. -/
lemma perform_succeed : ∃ (v' : View Data) (trail' : List Call) (s : JobStatus),
    Machine.perform (machine.execute 2) succeed.accept ⟨v, 1, some JobStatus.success.text⟩ =
      some ⟨.done, ⟨v', 1, some s.text⟩, trail'⟩ ∧ s.isTerminal = true ∧
      match outcome? .running .success v.data.job with
      | none => v'.skip = true ∧ v'.data = v.data
      | some s' => s' = s ∧ v'.skip = v.skip ∧ v'.data = v.data.setStatus s := by
  cases hover : v.data.job.status.isTerminal with
  | true =>
    have hnone : outcome? .running .success v.data.job = none := by simp [outcome?, hover]
    rw [hnone]
    refine ⟨{ v with skip := true }, [], .success, ?_, rfl, rfl, rfl⟩
    simp [succeed_accept, Machine.perform, hover]
  | false =>
    cases hblocking : v.data.job.hasBlocking with
    | true =>
      have hsome : outcome? .running .success v.data.job = some .failure := by
        simp [outcome?, hover, hblocking, leads]
      obtain ⟨v', trail', hfailure, hskip, hdata⟩ :=
        execute_failure hover (some JobStatus.success.text)
      rw [transition] at hfailure
      rw [hsome]
      refine ⟨v', trail', .failure, ?_, rfl, rfl, hskip, hdata⟩
      simp [succeed_accept, Machine.perform, hover, hblocking, hfailure]
    | false =>
      have hsome : outcome? .running .success v.data.job = some .success := by
        simp [outcome?, hover, hblocking, leads]
      rw [hsome]
      refine ⟨{ v with data := v.data.setStatus .success }, [], .success, ?_, rfl, rfl, rfl, rfl⟩
      simp [succeed_accept, Machine.perform, hover, hblocking]

/-- What a success makes of a job. -/
lemma runAction_succeed (hskip : v.skip = false) : ∃ v' trail',
    (runAction (machine.execute 2) t succeed ⟨v, 1, some JobStatus.success.text⟩).map machine.leave =
      some ⟨⟨v', 0, none⟩, trail', none⟩ ∧ v'.data = v.data.moved .running .success := by
  obtain ⟨v₁, trail, s, hperform, hs, hv₁⟩ := perform_succeed (v := v)
  have hrun : runAction (machine.execute 2) t succeed ⟨v, 1, some JobStatus.success.text⟩ =
      some ⟨⟨v₁, 1, some s.text⟩, .accept t :: trail ++ [.finally_ t], none⟩ := by
    simp [runAction, hperform, Machine.call, succeed_onFinally]
  obtain ⟨v₂, trail', hleave, hv₂⟩ := leave_outermost v₁ s
    (.accept t :: trail ++ [.finally_ t])
  refine ⟨v₂, trail', by rw [hrun, Option.map_some, hleave], ?_⟩
  rw [hv₂, hs, Data.moved]
  cases houtcome : outcome? .running .success v.data.job with
  | none =>
    rw [houtcome] at hv₁
    simp [hv₁]
  | some s' =>
    rw [houtcome] at hv₁
    obtain ⟨rfl, hskip₁, hdata₁⟩ := hv₁
    simp [hskip₁, hskip, hdata₁, Data.bring, hs]

/-- What any other transition makes of a job that is not over. -/
lemma runAction_setStatus (run : Transition → Context Data → Option (Ran Data))
    (hskip : v.skip = false) : ∃ v' trail',
    (runAction run t (setStatus target) ⟨v, 1, some target.text⟩).map machine.leave =
      some ⟨⟨v', 0, none⟩, trail', none⟩ ∧ v'.data = v.data.bring target := by
  obtain ⟨v', trail', hleave, hv'⟩ := leave_outermost
    { v with data := v.data.setStatus target } target [.accept t, .finally_ t]
  refine ⟨v', trail', by rw [runAction_setStatus_eq, Option.map_some, hleave], ?_⟩
  simp [hv', hskip, Data.bring]

/-- **Every transition** of the lifecycle that is run from the outside returns, and does what it
has to do. -/
theorem execute_eq (source target : JobStatus) {c : Context Data} (hc : c.depth = 0) :
    ∃ v trail, machine.execute nesting (transition source target) c =
      some ⟨⟨v, 0, none⟩, trail, none⟩ ∧ v.data = c.data.moved source target := by
  have hbegun : Machine.begun c = ⟨{ c.toView with skip := false }, 0, none⟩ := by
    rw [Machine.begun, if_pos hc, hc]
  obtain ⟨v, hv, hskip, hdata⟩ : ∃ v, v = ask (transition source target) { c.toView with skip := false } ∧
      v.skip = false ∧ v.data = c.data := ⟨_, rfl, rfl, rfl⟩
  rw [nesting, Machine.execute_succ, hbegun, action?_eq, ← hv, ← hdata]
  cases hleads : leads source target with
  | false => exact ⟨v, [], rfl, by simp [Data.moved, outcome?, hleads]⟩
  | true =>
    by_cases htarget : target = .success
    · have hsource : source = .running := by
        rw [htarget] at hleads
        cases source <;> first | rfl | cases hleads
      rw [hsource, htarget]
      exact runAction_succeed hskip
    · rw [if_pos rfl, if_neg htarget]
      cases hover : v.data.job.status.isTerminal with
      | true =>
        refine ⟨v, [], ?_, ?_⟩
        · simp [setStatus_canRun, hover]
        · simp [Data.moved, outcome?, hover]
      | false =>
        have hmoved : v.data.moved source target = v.data.bring target := by
          simp [Data.moved, outcome?, hover, hleads, htarget]
        simp only [setStatus_canRun, hover, hmoved]
        exact runAction_setStatus (machine.execute 2) hskip

end Execute

/-! ### Any calls -/

/-- What may happen to a job: a transition is asked for, or time passes and the records of the steps
change in any way. -/
inductive Happening where
  | advance (source target : JobStatus)
  | steps (records : List StepRecord) (now : Time)

def Happening.apply (c : Context Data) : Happening → Context Data
  | .advance source target => Lifecycle.advance source target c
  | .steps records now =>
    { c with data := { c.data with job := { c.data.job with steps := records }, now } }

/-- A job of a graph, after what happened to it since it was new. -/
def after (g : Graph) (now : Time) (hs : List Happening) : Context Data :=
  hs.foldl Happening.apply { data := { job := .ofGraph g, now } }

/-- The statuses with which the job was said to be over. -/
def finishes (events : List Event) : List JobStatus :=
  events.filterMap fun
    | .jobFinished s => some s
    | _ => none

/-- What holds of a job at any time: the time at which it was over is known just when it is over, and
just then the end was told, once. -/
structure EndsOnce (d : Data) : Prop where
  finished : d.job.finished.isSome = d.job.status.isTerminal
  told : finishes d.events = if d.job.status.isTerminal then [d.job.status] else []

section Calls

variable {d : Data} {c : Context Data} {source target s : JobStatus}

lemma finishes_append (events events' : List Event) :
    finishes (events ++ events') = finishes events ++ finishes events' :=
  List.filterMap_append

lemma setStatus_finishes : finishes (d.setStatus s).events = finishes d.events := by
  cases s <;> simp [Data.setStatus, JobStatus.isTerminal, finishes]

/-- A transition leaves a job alone, or it brings a job that is not over to a status, which is
success only if no step stands against it. -/
theorem moved_cases : d.moved source target = d ∨ d.job.status.isTerminal = false ∧
    ∃ s, d.moved source target = d.bring s ∧ (s = .success → d.job.hasBlocking = false) := by
  unfold Data.moved outcome?
  by_cases hover : d.job.status.isTerminal = true
  · simp [hover]
  · by_cases hleads : leads source target = true
    · by_cases hblocks : (target = .success && d.job.hasBlocking) = true
      · refine .inr ⟨by simpa using hover, .failure, by simp [hover, hleads, hblocks], ?_⟩
        rintro ⟨⟩
      · refine .inr ⟨by simpa using hover, target, by simp [hover, hleads, hblocks], ?_⟩
        rintro rfl
        simpa using hblocks
    · simp [hleads]

lemma advance_eq (source target : JobStatus) (hc : c.depth = 0) :
    (advance source target c).depth = 0 ∧
      (advance source target c).data = c.data.moved source target := by
  obtain ⟨v, trail, hrun, hdata⟩ := execute_eq source target hc
  rw [advance, hrun]
  exact ⟨rfl, hdata⟩

/-- **Bringing a job to a status** tells of its end, if it is the end. -/
theorem EndsOnce.bring (h : EndsOnce d) (hd : d.job.status.isTerminal = false) :
    EndsOnce (d.bring s) := by
  have hfinished : d.job.finished = none := by simpa [hd] using h.finished
  have htold : finishes d.events = [] := by simpa [hd] using h.told
  refine ⟨?_, ?_⟩
  · rw [Data.bring_job, Data.setStatus_finished d s hfinished, Data.setStatus_status]
  · rw [Data.bring_job, Data.setStatus_status]
    unfold Data.bring
    split
    · rw [Data.tellFinished, finishes_append, setStatus_finishes, htold, Data.setStatus_status]
      rfl
    · rw [setStatus_finishes, htold]

lemma EndsOnce.apply (h : EndsOnce c.data) (hc : c.depth = 0) (x : Happening) :
    EndsOnce (x.apply c).data ∧ (x.apply c).depth = 0 := by
  cases x with
  | advance source target =>
    obtain ⟨hdepth, hdata⟩ := advance_eq source target hc
    refine ⟨?_, hdepth⟩
    rw [Happening.apply, hdata]
    rcases moved_cases with hsame | ⟨hover, s, hbring, -⟩
    · rw [hsame]
      exact h
    · rw [hbring]
      exact h.bring hover
  | steps records now => exact ⟨⟨h.finished, h.told⟩, hc⟩

/-- What happens to a job that is over leaves its status as it is. -/
lemma apply_status (hc : c.depth = 0) (hover : c.data.job.status.isTerminal = true)
    (x : Happening) : (x.apply c).data.job.status = c.data.job.status := by
  cases x with
  | advance source target =>
    rw [Happening.apply, (advance_eq _ _ hc).2]
    rcases moved_cases with hsame | ⟨hrunning, -⟩
    · rw [hsame]
    · rw [hover] at hrunning
      cases hrunning
  | steps records now => rfl

/-- A job that comes to succeed has no step that stands against it. -/
lemma apply_success (hc : c.depth = 0) (x : Happening) (hbefore : c.data.job.status ≠ .success)
    (hafter : (x.apply c).data.job.status = .success) :
    (x.apply c).data.job.hasBlocking = false := by
  cases x with
  | advance source target =>
    rw [Happening.apply, (advance_eq _ _ hc).2] at hafter ⊢
    rcases moved_cases with hsame | ⟨-, s, hbring, hblocking⟩
    · rw [hsame] at hafter
      exact absurd hafter hbefore
    · rw [hbring, Data.bring_job] at hafter ⊢
      rw [Job.hasBlocking, Data.setStatus_steps]
      exact hblocking ((Data.setStatus_status _ _).symm.trans hafter)
  | steps records now => exact absurd hafter hbefore

variable (g : Graph) (now : Time)

lemma after_concat (hs : List Happening) (x : Happening) :
    after g now (hs ++ [x]) = x.apply (after g now hs) := by
  rw [after, List.foldl_concat]
  rfl

/-- **At any time** a job ended at most once. -/
theorem after_endsOnce (hs : List Happening) :
    EndsOnce (after g now hs).data ∧ (after g now hs).depth = 0 := by
  induction hs using List.reverseRecOn with
  | nil => exact ⟨⟨rfl, rfl⟩, rfl⟩
  | append_singleton hs x ih =>
    rw [after_concat]
    exact ih.1.apply ih.2 x

/-- **A job ends once**, whatever transitions are asked for and however the records of its steps
change. Once it is over its status stays as it is. Its end was told once if it is over, with its
status, and not at all before; the time of its end is known just when it is over. When it comes to
succeed, no step stands against it. And every transition returns. -/
theorem ends_once (hs : List Happening) :
    ((after g now hs).data.job.status.isTerminal = true → ∀ later,
      (after g now (hs ++ later)).data.job.status = (after g now hs).data.job.status) ∧
    finishes (after g now hs).data.events =
      (if (after g now hs).data.job.status.isTerminal then [(after g now hs).data.job.status]
        else []) ∧
    (after g now hs).data.job.finished.isSome = (after g now hs).data.job.status.isTerminal ∧
    (∀ x, (after g now hs).data.job.status ≠ .success →
      (after g now (hs ++ [x])).data.job.status = .success →
      ∀ r ∈ (after g now (hs ++ [x])).data.job.steps, r.isBlocking = false) ∧
    ∀ source target, ∃ r, machine.execute nesting (transition source target) (after g now hs) =
      some r ∧ r.crash = none ∧ r.context = advance source target (after g now hs) := by
  obtain ⟨hends, hdepth⟩ := after_endsOnce g now hs
  refine ⟨?_, hends.told, hends.finished, ?_, ?_⟩
  · intro hover later
    induction later using List.reverseRecOn with
    | nil => rw [List.append_nil]
    | append_singleton later x ih =>
      rw [← List.append_assoc, after_concat, apply_status (after_endsOnce g now _).2 (ih ▸ hover), ih]
  · intro x hbefore hafter r hr
    rw [after_concat] at hafter hr
    have hblocking := apply_success hdepth x hbefore hafter
    rw [Job.hasBlocking, List.any_eq_false] at hblocking
    simpa using hblocking r hr
  · intro source target
    obtain ⟨v, trail, hrun, -⟩ := execute_eq source target hdepth
    refine ⟨_, hrun, rfl, ?_⟩
    rw [advance, hrun]

end Calls

end StepFlow.Lifecycle
