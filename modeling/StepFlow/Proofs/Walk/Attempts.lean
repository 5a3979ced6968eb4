import StepFlow.Proofs.Walk.Step

/-!
The attempts at one step of a walk against the attempts at the step alone. With a driver whose
attempts end as a behaviour says, a walk tries a step as often, and with the same end, as the
behaviour makes of the step when it is tried on its own (`Attempt.all`): at every moment, what was
told and what is still to come make up all of it.
-/

namespace StepFlow

/-- What a job keeps of the end of an attempt. Of a response that is the exit code alone. -/
def AttemptEnd.bare : AttemptEnd → AttemptEnd
  | .answered (.response r) => .answered (.response { exitCode := r.exitCode })
  | e => e

/-- The driver at which attempts end as a behaviour says. What else a response holds is free. -/
def Driver.of (behaviour : EffectiveStep → UInt32 → AttemptEnd) : Driver := fun step attempt e =>
  e.bare = (behaviour step attempt).bare

namespace Attempt

variable {step : EffectiveStep} {attempt : UInt32} {e e' : AttemptEnd}

/-- What is noted and told of an outcome. -/
def noted (o : Outcome) : StepStatus × UInt32 × Option String := (o.status, o.attempts, o.error)

lemma noted_bare (e : AttemptEnd) :
    noted (outcome step attempt e.bare) = noted (outcome step attempt e) := by
  cases e with
  | timedOut => rfl
  | answered a =>
    cases a with
    | error e => rfl
    | crash message => rfl
    | response r =>
      by_cases hr : r.exitCode = 0
      · simp [AttemptEnd.bare, outcome, Response.isSuccess, hr, noted, Outcome.status,
          Outcome.attempts, Outcome.error]
      · simp [AttemptEnd.bare, outcome, Response.isSuccess, hr]

lemma noted_congr (h : e.bare = e'.bare) :
    noted (outcome step attempt e) = noted (outcome step attempt e') := by
  rw [← noted_bare e, h, noted_bare]

lemma isRetried_bare (e : AttemptEnd) :
    isRetried step attempt e.bare = isRetried step attempt e := by
  have hstatus : (outcome step attempt e.bare).status = (outcome step attempt e).status :=
    congrArg (·.1) (noted_bare e)
  cases e with
  | timedOut => rfl
  | answered a =>
    cases a with
    | error e => rfl
    | crash message => rfl
    | response r =>
      rw [AttemptEnd.bare] at hstatus ⊢
      simp only [isRetried, hstatus]

lemma isRetried_congr (h : e.bare = e'.bare) :
    isRetried step attempt e = isRetried step attempt e' := by
  rw [← isRetried_bare e, h, isRetried_bare]

lemma lt_of_isRetried (h : isRetried step attempt e = true) : attempt < step.maxAttempts := by
  unfold isRetried at h
  split at h
  · cases h
  · simp only [Bool.and_eq_true, decide_eq_true_eq] at h
    exact h.2

/-- The number of another attempt does not wrap around. -/
lemma toNat_next (h : isRetried step attempt e = true) :
    (attempt + 1).toNat = attempt.toNat + 1 := by
  have hlt : attempt.toNat < step.maxAttempts.toNat := lt_of_isRetried h
  have hmost := step.maxAttempts.toNat_lt
  rw [UInt32.toNat_add]
  exact Nat.mod_eq_of_lt (by simp; omega)

lemma maxAttempts_toNat (step : EffectiveStep) :
    step.maxAttempts.toNat = min (step.retry.toNat + 1) (UInt32.size - 1) := by
  unfold EffectiveStep.maxAttempts
  rw [UInt32.toNat_ofNat']
  apply Nat.mod_eq_of_lt
  simp [UInt32.size]

/-- A step is tried at least once. -/
lemma maxAttempts_pos (step : EffectiveStep) : 0 < step.maxAttempts.toNat := by
  rw [maxAttempts_toNat]
  simp [UInt32.size]

lemma tryFrom_last {agent : UInt32 → AttemptEnd}
    (h : isRetried step attempt (agent attempt) = false) (more : Nat) :
    tryFrom step agent attempt more = ⟨outcome step attempt (agent attempt), [.make attempt]⟩ := by
  cases more with
  | zero => rfl
  | succ more => simp [tryFrom, h]

lemma events_of_tells (o : Outcome) (es : List Event) :
    (⟨o, es.map .tell⟩ : Tried).events = es := by
  rw [Tried.events, List.filterMap_map]
  exact List.filterMap_some

end Attempt

/-! ### Steps under way -/

open Attempt in
/-- A step that is being tried, with the retries told so far: what is still to come and what was
told make up all attempts at the step, and they end as the step would end alone. -/
def Underway (behaviour : EffectiveStep → UInt32 → AttemptEnd) (r : Running)
    (retries : List Event) : Prop :=
  ∃ more, r.attempt.toNat + more = r.step.maxAttempts.toNat ∧
    (tryFrom r.step (behaviour r.step) r.attempt more).outcome =
      (all r.step (behaviour r.step)).outcome ∧
    retries ++ (tryFrom r.step (behaviour r.step) r.attempt more).events =
      (all r.step (behaviour r.step)).events

section Underway

variable {behaviour : EffectiveStep → UInt32 → AttemptEnd} {r : Running} {retries : List Event}
  {e : AttemptEnd}

lemma underway_first (node : Nat) (step : EffectiveStep) :
    Underway behaviour { node, step } [] := by
  have hpos := Attempt.maxAttempts_pos step
  refine ⟨step.maxAttempts.toNat - 1, ?_, rfl, rfl⟩
  show 1 + (step.maxAttempts.toNat - 1) = step.maxAttempts.toNat
  omega

lemma Underway.retry (h : Underway behaviour r retries)
    (he : Driver.of behaviour r.step r.attempt e)
    (hagain : Attempt.isRetried r.step r.attempt e = true) :
    Underway behaviour { r with attempt := r.attempt + 1 }
      (retries ++ [Attempt.retrying r.step (r.attempt + 1)]) := by
  obtain ⟨more, hmore, houtcome, hevents⟩ := h
  have hlt : r.attempt.toNat < r.step.maxAttempts.toNat := Attempt.lt_of_isRetried hagain
  have hnext := Attempt.toNat_next hagain
  obtain ⟨left, rfl⟩ : ∃ left, more = left + 1 := ⟨more - 1, by omega⟩
  rw [Attempt.isRetried_congr he] at hagain
  simp only [Attempt.tryFrom, hagain, if_true] at houtcome hevents
  refine ⟨left, ?_, houtcome, ?_⟩
  · show (r.attempt + 1).toNat + left = r.step.maxAttempts.toNat
    omega
  · rw [List.append_assoc]
    exact hevents

/-- The last attempt ends the step as it would end alone, and no retry is left out. -/
lemma Underway.finish (h : Underway behaviour r retries)
    (he : Driver.of behaviour r.step r.attempt e)
    (hlast : Attempt.isRetried r.step r.attempt e = false) :
    retries = (Attempt.all r.step (behaviour r.step)).events ∧
      Attempt.noted (Attempt.outcome r.step r.attempt e) =
        Attempt.noted (Attempt.all r.step (behaviour r.step)).outcome := by
  obtain ⟨more, -, houtcome, hevents⟩ := h
  rw [Attempt.isRetried_congr he] at hlast
  rw [Attempt.tryFrom_last hlast] at houtcome hevents
  have htold : retries ++ [] = (Attempt.all r.step (behaviour r.step)).events := hevents
  rw [List.append_nil] at htold
  rw [← houtcome]
  exact ⟨htold, Attempt.noted_congr he⟩

end Underway

end StepFlow
