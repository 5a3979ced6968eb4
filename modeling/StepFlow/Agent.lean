import StepFlow.Effective
import StepFlow.Flow.Print
import StepFlow.Text.Quoted

/-!
Agents run steps. One attempt of a step ends with a response, with an error of the agent, with a
crash, or not at all. The dry-run agent only writes down what it would run.
-/

namespace StepFlow

/-- What a step leaves behind on the agent that ran it. -/
structure Response where
  exitCode : Int := 0
  output : String := ""
  /-- The values of the variables that the step exports. -/
  exports : Table String := []
  deriving DecidableEq, Repr

/-- The step succeeded. -/
def Response.isSuccess (r : Response) : Bool := r.exitCode = 0

/-- Why an agent does not run a step, or cannot tell how it went. -/
inductive AgentError where
  | noAgent (wanted : List String)
  | dispatch (message : String)
  | timeout (seconds : UInt64)
  | internal (message : String)
  deriving DecidableEq, Repr

/-- The wording for something that took too long. -/
def timeoutMessage (seconds : UInt64) : String := s!"Timeout after {seconds.toNat} seconds"

/-- The wording of the error. -/
def AgentError.message : AgentError → String
  | .noAgent wanted => "No agent matches " ++ Text.quotedList wanted
  | .dispatch message => "Dispatch error: " ++ message
  | .timeout seconds => timeoutMessage seconds
  | .internal message => "Internal error: " ++ message

/-- What an agent answers to an attempt. -/
inductive Answer where
  | response (r : Response)
  | error (e : AgentError)
  | crash (message : String)
  deriving DecidableEq, Repr

/-! ### The dry run -/

namespace DryRun

/-- An agent with these tags serves a step that wants one of them. Without tags it serves every
step, and a step that wants nothing is served by every agent. -/
def serves (tags wanted : List String) : Bool :=
  tags.isEmpty || wanted.isEmpty || wanted.any fun w => tags.contains w

/-- What the step would run, line by line. -/
def lines (step : EffectiveStep) : List String :=
  step.bash ++ step.pwsh ++ (step.plugin.map fun p => "plugin " ++ p).toList

/-- The exports whose values are known beforehand: those of variables. -/
def knownExports (step : EffectiveStep) : Table String :=
  step.exports.filterMap fun key => (Table.get? key step.vars).map fun v => (key, v)

/-- The response to a step, or why there is no agent for it. -/
def dispatch (tags : List String) (step : EffectiveStep) : Except AgentError Response :=
  if serves tags step.agents then
    .ok { output := String.join ((lines step).map (· ++ "\n")), exports := knownExports step }
  else .error (.noAgent step.agents)

end DryRun

/-! ### Written forms -/

/-- A response as JSON. -/
def Response.toJson (r : Response) : Json :=
  .obj [("exit_code", .num r.exitCode), ("output", .str r.output),
    ("exports", Json.table r.exports)]

end StepFlow
