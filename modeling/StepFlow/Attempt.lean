import StepFlow.Agent
import StepFlow.Job

/-!
Attempts at a step. A step is tried until an attempt succeeds or the attempts are used up; the
first attempt is not counted as a retry. An attempt that crashes ends the step at once.
-/

namespace StepFlow

/-- How one attempt ends: the agent answers, or the time for the attempt runs out before. -/
inductive AttemptEnd where
  | answered (a : Answer)
  | timedOut
  deriving DecidableEq, Repr

/-- How a step ends. -/
inductive Outcome where
  | success (response : Response) (attempts : UInt32)
  | failed (error : String) (attempts : UInt32)
  | timedOut (seconds : UInt64) (attempts : UInt32)
  deriving DecidableEq, Repr

namespace Outcome

/-- The status that a step ends with. -/
def status : Outcome → StepStatus
  | .success .. => .success
  | .failed .. => .failure
  | .timedOut .. => .timeout

/-- How many attempts are counted. -/
def attempts : Outcome → UInt32
  | .success _ n | .failed _ n | .timedOut _ n => n

/-- What went wrong. -/
def error : Outcome → Option String
  | .success .. => none
  | .failed e _ => some e
  | .timedOut seconds _ => some (timeoutMessage seconds)

/-- The response of a step that succeeded. -/
def response : Outcome → Option Response
  | .success r _ => some r
  | _ => none

end Outcome

/-- How often a step may be tried: once more than it may be retried, as far as the counter goes. -/
def EffectiveStep.maxAttempts (step : EffectiveStep) : UInt32 :=
  UInt32.ofNat (min (step.retry.toNat + 1) (UInt32.size - 1))

namespace Attempt

/-- The wording for a crash. The number of the task that crashed is not told. -/
def crashMessage (message : String) : String :=
  "step task failed: task <id> panicked with message " ++ Text.quoted message

/-- What the end of an attempt means for the step, if it is the last one. A crash counts as a
single attempt. -/
def outcome (step : EffectiveStep) (attempt : UInt32) : AttemptEnd → Outcome
  | .answered (.response r) =>
    if r.isSuccess then .success r attempt
    else .failed s!"exited with code {r.exitCode}" attempt
  | .answered (.error e) => .failed e.message attempt
  | .answered (.crash message) => .failed (crashMessage message) 1
  | .timedOut => .timedOut step.timeout attempt

/-- The step is tried again after an attempt with this end. -/
def isRetried (step : EffectiveStep) (attempt : UInt32) (e : AttemptEnd) : Bool :=
  match e with
  | .answered (.crash _) => false
  | _ => (outcome step attempt e).status ≠ .success && attempt < step.maxAttempts

/-- The event that announces an attempt after the first. -/
def retrying (step : EffectiveStep) (attempt : UInt32) : Event :=
  .stepRetrying step.name attempt step.maxAttempts

/-- What is done for a step while it is tried. -/
inductive Act where
  | tell (e : Event)
  | make (attempt : UInt32)
  deriving DecidableEq, Repr

/-- What the attempts at one step left behind. -/
structure Tried where
  outcome : Outcome
  /-- What was told and which attempts were made, in this order. -/
  acts : List Act
  deriving DecidableEq, Repr

namespace Tried

/-- The numbers of the attempts that were made. -/
def dispatched (t : Tried) : List UInt32 :=
  t.acts.filterMap fun
    | .make attempt => some attempt
    | .tell _ => none

/-- What was told. -/
def events (t : Tried) : List Event :=
  t.acts.filterMap fun
    | .make _ => none
    | .tell e => some e

end Tried

/-- Makes an attempt and, while the step is to be tried again, at most `more` further ones, each of
which is announced. -/
def tryFrom (step : EffectiveStep) (agent : UInt32 → AttemptEnd) (attempt : UInt32) :
    (more : Nat) → Tried
  | 0 => ⟨outcome step attempt (agent attempt), [.make attempt]⟩
  | more + 1 =>
    if isRetried step attempt (agent attempt) then
      let rest := tryFrom step agent (attempt + 1) more
      { rest with acts := .make attempt :: .tell (retrying step (attempt + 1)) :: rest.acts }
    else ⟨outcome step attempt (agent attempt), [.make attempt]⟩

/-- All attempts at a step, with an agent whose attempts end as given. -/
def all (step : EffectiveStep) (agent : UInt32 → AttemptEnd) : Tried :=
  tryFrom step agent 1 (step.maxAttempts.toNat - 1)

end Attempt

end StepFlow
