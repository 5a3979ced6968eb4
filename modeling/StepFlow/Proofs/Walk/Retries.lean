import StepFlow.Proofs.Walk.Asks
import StepFlow.Proofs.Walk.Timelines

/-!
The attempts at one step with an agent that does not crash. They are numbered from one on, and the last
is the first that succeeds or, if none does, the last that the step may have (`Agent.LastAttempt`). From
the second on each is announced right before it is made, and nothing else is told
(`execute_attempts`). As the step may have no more attempts than the counter can count, their numbers
are never wrapped around.
-/

namespace StepFlow

/-- The most attempts that a step may have. -/
def EffectiveStep.most (step : EffectiveStep) : Nat := min (step.retry.toNat + 1) (2 ^ 32 - 1)

namespace Agent

/-- The agent answers the attempt in time, with the exit code zero. -/
def Succeeds (agent : Agent) (step : EffectiveStep) (k : Nat) : Prop :=
  ∃ r, (agent step (.ofNat k)).answer = some (.response r) ∧ r.exitCode = 0 ∧
    (agent step (.ofNat k)).wait ≤ step.timeout.toNat * 1000

/-- The attempt is the first that succeeds, or none does and it is the last that the step may have. -/
structure LastAttempt (agent : Agent) (step : EffectiveStep) (n : Nat) : Prop where
  pos : 1 ≤ n
  le : n ≤ step.most
  earlier : ∀ k, 1 ≤ k → k < n → ¬ agent.Succeeds step k
  last : agent.Succeeds step n ∨ n = step.most

end Agent

namespace Attempt

/-- What is done for an attempt after the first: it is announced, then it is made. -/
def again (step : EffectiveStep) (k : Nat) : List Act :=
  [.tell (.stepRetrying step.name (.ofNat k) (.ofNat step.most)), .make (.ofNat k)]

section Retries

variable {agent : Agent} {step : EffectiveStep} {attempt : UInt32} {more : Nat}

lemma maxAttempts_toNat_eq (step : EffectiveStep) : step.maxAttempts.toNat = step.most :=
  maxAttempts_toNat step

lemma behaviour_eq_answered {a : Answer} : agent.behaviour step attempt = .answered a ↔
    (agent step attempt).answer = some a ∧
      (agent step attempt).wait ≤ step.timeout.toNat * 1000 := by
  unfold Agent.behaviour Reply.outcome
  cases (agent step attempt).answer with
  | none => simp
  | some b =>
    by_cases hwait : (agent step attempt).wait ≤ step.timeout.toNat * 1000
    · simp [hwait]
    · simp [hwait]

lemma status_eq_success_iff {e : AttemptEnd} : (outcome step attempt e).status = .success ↔
    ∃ r, e = .answered (.response r) ∧ r.exitCode = 0 := by
  cases e with
  | timedOut => simp [outcome, Outcome.status]
  | answered a =>
    cases a with
    | error e => simp [outcome, Outcome.status]
    | crash message => simp [outcome, Outcome.status]
    | response r =>
      by_cases hr : r.exitCode = 0
      · simp [outcome, Response.isSuccess, Outcome.status, hr]
      · simp [outcome, Response.isSuccess, Outcome.status, hr]

lemma status_behaviour_iff : (outcome step attempt (agent.behaviour step attempt)).status = .success ↔
    agent.Succeeds step attempt.toNat := by
  rw [status_eq_success_iff, Agent.Succeeds, UInt32.ofNat_toNat]
  refine exists_congr fun r => ?_
  rw [behaviour_eq_answered, and_assoc, and_comm (b := r.exitCode = 0)]

lemma crashes_behaviour (hcrash : ∀ k message, (agent step k).answer ≠ some (.crash message)) :
    (agent.behaviour step attempt).crashes = false := by
  unfold AttemptEnd.crashes
  split
  case h_1 message hcrashed => exact absurd (behaviour_eq_answered.1 hcrashed).1 (hcrash _ _)
  case h_2 => rfl

/-- An attempt that did not crash is followed by another unless it succeeded or was the last. -/
lemma isRetried_iff (hcrash : ∀ k message, (agent step k).answer ≠ some (.crash message)) :
    isRetried step attempt (agent.behaviour step attempt) = true ↔
      ¬ agent.Succeeds step attempt.toNat ∧ attempt.toNat < step.most := by
  rw [← status_behaviour_iff, ← maxAttempts_toNat_eq, ← UInt32.lt_iff_toNat_lt]
  unfold isRetried
  split
  case h_1 message hcrashed =>
    have hno : (agent.behaviour step attempt).crashes = false := crashes_behaviour hcrash
    rw [hcrashed] at hno
    cases hno
  case h_2 => rw [Bool.and_eq_true, decide_eq_true_eq, decide_eq_true_eq]

/-- **The attempts from one on.** -/
theorem tryFrom_attempts (hcrash : ∀ k message, (agent step k).answer ≠ some (.crash message))
    (hmore : attempt.toNat + more = step.most) :
    ∃ n, attempt.toNat ≤ n ∧ n ≤ step.most ∧
      (∀ k, attempt.toNat ≤ k → k < n → ¬ agent.Succeeds step k) ∧
      (agent.Succeeds step n ∨ n = step.most) ∧
      tryFrom step (agent.behaviour step) attempt more =
        ⟨outcome step (.ofNat n) (agent.behaviour step (.ofNat n)),
          .make attempt :: (List.range' (attempt.toNat + 1) (n - attempt.toNat)).flatMap
            (again step)⟩ := by
  have hself : UInt32.ofNat attempt.toNat = attempt := UInt32.ofNat_toNat
  induction more generalizing attempt with
  | zero =>
    refine ⟨attempt.toNat, le_rfl, hmore.le, fun k hk hlt => absurd hlt (by omega), .inr hmore, ?_⟩
    rw [Nat.sub_self, hself]
    rfl
  | succ more ih =>
    rw [tryFrom]
    split
    case isTrue hagain =>
      obtain ⟨hfails, -⟩ := (isRetried_iff hcrash).1 hagain
      have hnext := toNat_next hagain
      have hrest : (attempt + 1).toNat + more = step.most := by omega
      obtain ⟨n, hle, hmost, hearlier, hlast, heq⟩ := ih hrest UInt32.ofNat_toNat
      rw [hnext] at hle hearlier heq
      refine ⟨n, by omega, hmost, ?_, hlast, ?_⟩
      · intro k hk hlt
        rcases hk.eq_or_lt with rfl | hlater
        · exact hfails
        · exact hearlier k hlater hlt
      · have hself' : UInt32.ofNat (attempt.toNat + 1) = attempt + 1 := by
          rw [← hnext, UInt32.ofNat_toNat]
        rw [heq, show n - attempt.toNat = n - (attempt.toNat + 1) + 1 by omega, List.range'_succ,
          List.flatMap_cons, again, hself']
        rfl
    case isFalse hstops =>
      have hsucceeds : agent.Succeeds step attempt.toNat := by
        rw [isRetried_iff hcrash] at hstops
        by_contra hfails
        exact hstops ⟨hfails, by omega⟩
      refine ⟨attempt.toNat, le_rfl, by omega, fun k hk hlt => absurd hlt (by omega),
        .inl hsucceeds, ?_⟩
      rw [Nat.sub_self, hself]
      rfl

lemma dispatched_again (o : Outcome) (step : EffectiveStep) (ks : List Nat) :
    (⟨o, .make 1 :: ks.flatMap (again step)⟩ : Tried).dispatched = 1 :: ks.map .ofNat := by
  simp only [Tried.dispatched, List.filterMap_cons, List.cons.injEq, true_and]
  induction ks with
  | nil => rfl
  | cons k ks ih =>
    rw [List.flatMap_cons, List.filterMap_append, ih]
    rfl

lemma events_again (o : Outcome) (step : EffectiveStep) (ks : List Nat) :
    (⟨o, .make 1 :: ks.flatMap (again step)⟩ : Tried).events =
      ks.map fun k => .stepRetrying step.name (.ofNat k) (.ofNat step.most) := by
  simp only [Tried.events, List.filterMap_cons]
  induction ks with
  | nil => rfl
  | cons k ks ih =>
    rw [List.flatMap_cons, List.filterMap_append, ih]
    rfl

end Retries

end Attempt

/-- **The attempts at a step** with an agent that does not crash at it. Let `n` be the first attempt that
the agent answers in time with the exit code zero or, if there is none, the last that the step may have.
The attempts that are made are those from 1 to `n`, in this order and without overflow. Before each of
them but the first it is told that the step is tried again, with the number of the attempt and the most
that the step may have, and nothing else is told. The step ends as attempt `n` does, after `n`
attempts. -/
theorem execute_attempts (agent : Agent) (step : EffectiveStep)
    (hcrash : ∀ k message, (agent step k).answer ≠ some (.crash message)) :
    ∃ n, agent.LastAttempt step n ∧
      (agent.execute step).acts = .make 1 :: (List.range' 2 (n - 1)).flatMap (Attempt.again step) ∧
      (agent.execute step).dispatched.map UInt32.toNat = List.range' 1 n ∧
      (agent.execute step).events = (List.range' 2 (n - 1)).map (fun k =>
        .stepRetrying step.name (.ofNat k) (.ofNat step.most)) ∧
      (agent.execute step).outcome =
        Attempt.outcome step (.ofNat n) (agent.behaviour step (.ofNat n)) ∧
      (agent.execute step).outcome.attempts.toNat = n := by
  have hpos := Attempt.maxAttempts_pos step
  have hsize : step.most < 2 ^ 32 := by
    unfold EffectiveStep.most
    omega
  have hmore : UInt32.toNat 1 + (step.maxAttempts.toNat - 1) = step.most := by
    rw [← Attempt.maxAttempts_toNat_eq]
    exact Nat.add_sub_cancel' hpos
  obtain ⟨n, (hle : 1 ≤ n), hmost, hearlier, hlast, heq⟩ := Attempt.tryFrom_attempts hcrash hmore
  have hexecute : agent.execute step =
      ⟨Attempt.outcome step (.ofNat n) (agent.behaviour step (.ofNat n)),
        .make 1 :: (List.range' 2 (n - 1)).flatMap (Attempt.again step)⟩ := heq
  have hcounted : ∀ k ≤ n, (UInt32.ofNat k).toNat = k := fun k hk =>
    UInt32.toNat_ofNat_of_lt' ((hk.trans hmost).trans_lt hsize)
  rw [hexecute]
  refine ⟨n, ⟨hle, hmost, hearlier, hlast⟩, rfl, ?_, Attempt.events_again _ _ _, rfl, ?_⟩
  · obtain ⟨m, rfl⟩ : ∃ m, n = m + 1 := ⟨n - 1, by omega⟩
    have hid : (List.range' 2 m).map (UInt32.toNat ∘ UInt32.ofNat) = (List.range' 2 m).map id :=
      List.map_congr_left fun k hk => hcounted k (by rw [List.mem_range'_1] at hk; omega)
    rw [Attempt.dispatched_again, List.map_cons, List.map_map, Nat.add_sub_cancel, hid, List.map_id,
      List.range'_succ]
    rfl
  · rw [Attempt.attempts_outcome, Attempt.crashes_behaviour hcrash]
    exact hcounted n le_rfl

/-! ### An upload that takes four attempts -/

/-- A step that may be retried four times. -/
def upload : EffectiveStep where
  name := "upload"
  path := "root/upload"
  bash := ["make upload"]
  pwsh := []
  conditions := []
  exports := []
  secrets := []
  configs := []
  timeout := 60
  retry := 4
  caches := []
  artifacts := []
  vars := []
  agents := []
  docker := none
  plugin := none
  allowFailure := false
  post := false

/-- The first attempt exits with code 1, the second one ends with an error of the agent, the third one
never ends, and all others succeed in the nick of time. -/
def unsteady : Agent := fun _ attempt =>
  if attempt = 1 then { answer := some (.response { exitCode := 1 }) }
  else if attempt = 2 then { answer := some (.error (.dispatch "connection lost")) }
  else if attempt = 3 then { answer := none }
  else { wait := 60000 }

lemma unsteady_fails {k : Nat} (hpos : 1 ≤ k) (hlt : k < 4) : ¬ unsteady.Succeeds upload k := by
  rintro ⟨r, hr, hcode, -⟩
  interval_cases k
  · cases hr
    cases hcode
  · cases hr
  · cases hr

theorem execute_attempts_unsteady :
    (∀ k message, (unsteady upload k).answer ≠ some (.crash message)) ∧
    (unsteady.execute upload).dispatched.map UInt32.toNat = [1, 2, 3, 4] ∧
    (unsteady.execute upload).events = [.stepRetrying "upload" 2 5, .stepRetrying "upload" 3 5,
      .stepRetrying "upload" 4 5] ∧
    (unsteady.execute upload).outcome.attempts.toNat = 4 := by
  have hsteady : ∀ k message, (unsteady upload k).answer ≠ some (.crash message) := by
    intro k message
    unfold unsteady
    split
    · nofun
    · split
      · nofun
      · split <;> nofun
  obtain ⟨n, ⟨hpos, hmost, hearlier, hlast⟩, -, hdispatched, hevents, -, hattempts⟩ :=
    execute_attempts unsteady upload hsteady
  have hsucceeds : unsteady.Succeeds upload 4 := ⟨{}, rfl, rfl, by decide⟩
  have hle : n ≤ 4 := not_lt.1 fun hlt => hearlier 4 (by omega) hlt hsucceeds
  have hge : 4 ≤ n := not_lt.1 fun hlt => hlast.elim (unsteady_fails hpos hlt) fun hmost => by
    have hfive : upload.most = 5 := rfl
    omega
  obtain rfl : n = 4 := le_antisymm hle hge
  exact ⟨hsteady, hdispatched, hevents, hattempts⟩

end StepFlow
