import StepFlow.Proofs.Graph.Edges
import StepFlow.Proofs.Job.Closing

/-!
How the status of a job moves. A call names a transition with its source, but the lifecycle does not
compare the source with the status of the job: it acts on every transition that it knows until the job
is over. So a call that is out of date may skip statuses, lead back, or start a job once more
(`moves_out_of_date`). As long as all calls that are acted on start where the job is, its status goes
along the transitions, and it starts once (`status_moves`).
-/

namespace StepFlow.Lifecycle

/-- How often a job was said to start. -/
def starts (events : List Event) : Nat :=
  events.countP fun
    | .jobStarted _ _ => true
    | _ => false

/-- The lifecycle acts on a call: the transition is known, and the job is not over. -/
def acts (source target : JobStatus) (j : Job) : Bool :=
  machine.knows (transition source target) && !j.status.isTerminal

/-- A call that is acted on starts where the job is. -/
def Happening.isCurrent (j : Job) : Happening → Bool
  | .advance source target => !acts source target j || j.status = source
  | .steps _ _ => true

/-- All calls that are acted on start where the job is by then. -/
def allCurrent (c : Context Data) : List Happening → Bool
  | [] => true
  | x :: hs => x.isCurrent c.data.job && allCurrent (x.apply c) hs

/-- The job of a graph is new, and all calls that are acted on start where it is by then. -/
def AllCurrent (g : Graph) (now : Time) (hs : List Happening) : Prop :=
  allCurrent { data := { job := .ofGraph g, now } } hs

instance (g : Graph) (now : Time) : DecidablePred (AllCurrent g now) :=
  fun _ => inferInstanceAs (Decidable (_ = true))

section Moves

variable {c : Context Data} {d : Data} {source target s : JobStatus} {x : Happening}
  {hs : List Happening}

/-! ### One call -/

lemma knows_transition (source target : JobStatus) :
    machine.knows (transition source target) = leads source target := by
  rw [Machine.knows, action?_eq]
  cases leads source target <;> rfl

lemma moved_eq : d.moved source target =
    if acts source target d.job then d.bring (ending target d.job) else d := by
  unfold Data.moved outcome? acts ending
  rw [knows_transition]
  cases d.job.status.isTerminal <;> cases leads source target <;> simp
  split <;> rfl

/-- **What a call does** to a job. -/
lemma advance_data (hc : c.depth = 0) : (advance source target c).data =
    if acts source target c.data.job then c.data.bring (ending target c.data.job) else c.data :=
  (advance_eq source target hc).2.trans moved_eq

lemma bring_status : (d.bring s).job.status = s := by
  rw [Data.bring_job, Data.setStatus_status]

lemma starts_append (events events' : List Event) :
    starts (events ++ events') = starts events + starts events' :=
  List.countP_append

lemma bring_starts : starts (d.bring s).events = starts d.events + if s = .running then 1 else 0 := by
  by_cases hs : s = .running
  · subst hs
    rw [if_pos rfl]
    exact starts_append d.events _
  · rw [if_neg hs, Data.bring]
    split
    · rw [Data.tellFinished, starts_append, Data.setStatus_events d s hs]
      rfl
    · rw [Data.setStatus_events d s hs]
      rfl

lemma ending_eq_running_iff {j : Job} : ending target j = .running ↔ target = .running := by
  unfold ending
  split
  case isTrue h =>
    simp only [Bool.and_eq_true, decide_eq_true_eq] at h
    simp [h.1]
  case isFalse => rfl

/-- A job fails from where it would succeed. -/
lemma ending_cases {j : Job} (h : leads source target = true) :
    ending target j = target ∨ source = .running ∧ ending target j = .failure := by
  unfold ending
  split
  case isTrue hsuccess =>
    simp only [Bool.and_eq_true, decide_eq_true_eq] at hsuccess
    rw [hsuccess.1] at h
    refine .inr ⟨?_, rfl⟩
    cases source <;> first | rfl | cases h
  case isFalse => exact .inl rfl

lemma leads_ending {j : Job} (h : leads source target = true) :
    leads source (ending target j) = true := by
  rcases ending_cases (j := j) h with hr | ⟨rfl, hr⟩
  · rwa [hr]
  · rw [hr]
    rfl

/-! ### Calls that start where the job is -/

/-- The most often that a job was said to start which is at a status: a job that waits did not start
yet. -/
def startsBy : JobStatus → Nat
  | .pending | .created | .queued => 0
  | _ => 1

/-- No transition leads back to where a job waits, and the one that starts it leads from there. -/
lemma startsBy_of_leads (h : leads source target = true) :
    (startsBy source + if target = .running then 1 else 0) ≤ startsBy target := by
  cases source <;> cases target <;> first | decide | cases h

/-- **A call** that starts where the job is. -/
lemma apply_current (hc : c.depth = 0) (hx : x.isCurrent c.data.job = true)
    (h : starts c.data.events ≤ startsBy c.data.job.status) :
    ((x.apply c).data.job.status = c.data.job.status ∨
      machine.knows (transition c.data.job.status (x.apply c).data.job.status) = true) ∧
    starts (x.apply c).data.events ≤ startsBy (x.apply c).data.job.status := by
  cases x with
  | steps records now => exact ⟨.inl rfl, h⟩
  | advance source target =>
    rw [Happening.apply, advance_data hc]
    cases hacts : acts source target c.data.job with
    | false => exact ⟨.inl rfl, h⟩
    | true =>
      obtain rfl : c.data.job.status = source := by simpa [Happening.isCurrent, hacts] using hx
      rw [acts, knows_transition, Bool.and_eq_true] at hacts
      rw [if_pos rfl, bring_status, bring_starts, knows_transition]
      exact ⟨.inr (leads_ending hacts.1),
        (Nat.add_le_add_right h _).trans (startsBy_of_leads (leads_ending hacts.1))⟩

/-! ### Any calls -/

lemma allCurrent_concat : allCurrent c (hs ++ [x]) =
    (allCurrent c hs && x.isCurrent (hs.foldl Happening.apply c).data.job) := by
  induction hs generalizing c with
  | nil => simp [allCurrent]
  | cons y hs ih => rw [List.cons_append, allCurrent, ih, allCurrent, List.foldl_cons, Bool.and_assoc]

variable (g : Graph) (now : Time)

lemma allCurrent_concat_iff : AllCurrent g now (hs ++ [x]) ↔
    AllCurrent g now hs ∧ x.isCurrent (after g now hs).data.job = true := by
  rw [AllCurrent, allCurrent_concat, Bool.and_eq_true]
  rfl

lemma AllCurrent.starts_le (h : AllCurrent g now hs) :
    starts (after g now hs).data.events ≤ startsBy (after g now hs).data.job.status := by
  induction hs using List.reverseRecOn with
  | nil => exact Nat.le_refl 0
  | append_singleton hs x ih =>
    obtain ⟨hs, hx⟩ := (allCurrent_concat_iff g now).mp h
    rw [after_concat]
    exact (apply_current (after_endsOnce g now _).2 hx (ih hs)).2

/-- **How the status of a job moves.** Only calls that are acted on change it, those of transitions that
are known while the job is not over. Such a call brings the job to its target, or to failure if it
should succeed and a step stands against that, and tells of a start just when it leads to running. As
long as all such calls start where the job is, the status goes along a transition or stays, and the job
is not said to start more than once. -/
theorem status_moves (hs : List Happening) (x : Happening) :
    (∀ source target, x = .advance source target →
      acts source target (after g now hs).data.job = true →
      (after g now (hs ++ [x])).data.job.status = ending target (after g now hs).data.job ∧
      starts (after g now (hs ++ [x])).data.events =
        starts (after g now hs).data.events + if target = .running then 1 else 0) ∧
    ((∀ source target, x = .advance source target →
      acts source target (after g now hs).data.job = false) →
      (after g now (hs ++ [x])).data.job.status = (after g now hs).data.job.status ∧
      starts (after g now (hs ++ [x])).data.events = starts (after g now hs).data.events) ∧
    (AllCurrent g now (hs ++ [x]) →
      ((after g now (hs ++ [x])).data.job.status = (after g now hs).data.job.status ∨
        machine.knows (transition (after g now hs).data.job.status
          (after g now (hs ++ [x])).data.job.status) = true) ∧
      starts (after g now (hs ++ [x])).data.events ≤ 1) := by
  obtain ⟨-, hdepth⟩ := after_endsOnce g now hs
  rw [after_concat]
  refine ⟨?_, ?_, ?_⟩
  · rintro source target rfl hacts
    rw [Happening.apply, advance_data hdepth, if_pos hacts, bring_status, bring_starts]
    exact ⟨rfl, by simp only [ending_eq_running_iff]⟩
  · intro hquiet
    cases x with
    | steps records now => exact ⟨rfl, rfl⟩
    | advance source target =>
      rw [Happening.apply, advance_data hdepth, if_neg (by simp [hquiet source target rfl])]
      exact ⟨rfl, rfl⟩
  · intro hcurrent
    obtain ⟨hs, hx⟩ := (allCurrent_concat_iff g now).mp hcurrent
    obtain ⟨hmoves, hstarts⟩ := apply_current hdepth hx (hs.starts_le g now)
    refine ⟨hmoves, hstarts.trans ?_⟩
    cases (x.apply (after g now _)).data.job.status <;> decide

/-- A flow with one step. -/
def single : Flow where
  steps := [("a", { spec := { bash := some "a" } })]

/-- The calls that bring a new job to run. -/
def starting : List Happening :=
  [.advance .pending .created, .advance .created .queued, .advance .queued .running]

/-- A job that runs comes to succeed. -/
theorem status_moves_single : ∃ g, single.compile = .ok g ∧
    AllCurrent g 0 (starting ++ [.advance .running .success]) ∧
    (after g 0 (starting ++ [.advance .running .success])).data.job.status = .success ∧
    ((after g 0 (starting ++ [.advance .running .success])).data.job.status =
        (after g 0 starting).data.job.status ∨
      machine.knows (transition (after g 0 starting).data.job.status
        (after g 0 (starting ++ [.advance .running .success])).data.job.status) = true) ∧
    starts (after g 0 (starting ++ [.advance .running .success])).data.events ≤ 1 := by
  obtain ⟨g, hg, hcurrent, hacts, hending⟩ := Graph.exists_compiled (f := single)
    (P := fun g => AllCurrent g 0 (starting ++ [.advance .running .success]) ∧
      acts .running .success (after g 0 starting).data.job = true ∧
      ending .success (after g 0 starting).data.job = .success) (by cbv)
  obtain ⟨hcalls, -, hmoves⟩ := status_moves g 0 starting (.advance .running .success)
  obtain ⟨hstatus, -⟩ := hcalls .running .success rfl hacts
  exact ⟨g, hg, hcurrent, hstatus.trans hending, hmoves hcurrent⟩

/-- **Calls that are out of date**: a new job succeeds without having run, a job that runs is led back,
and a job is said to start twice. -/
theorem moves_out_of_date : ∃ g, single.compile = .ok g ∧
    (after g 0 []).data.job.status = .pending ∧
    (after g 0 [.advance .running .success]).data.job.status = .success ∧
    machine.knows (transition .pending .success) = false ∧
    (after g 0 starting).data.job.status = .running ∧
    (after g 0 (starting ++ [.advance .pending .created])).data.job.status = .created ∧
    machine.knows (transition .running .created) = false ∧
    starts (after g 0 (starting ++ [.advance .queued .running])).data.events = 2 :=
  Graph.exists_compiled (by cbv)

end Moves

end StepFlow.Lifecycle
