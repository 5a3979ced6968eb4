import StepFlow.Graph.Order
import StepFlow.Effective
import StepFlow.Job
import StepFlow.Text.Style

/-!
Texts for people: statuses, events, graphs, the effective properties of a step, and the summary of
a job, all with or without colours.
-/

namespace StepFlow.Report

open Text (join)

/-! ### Statuses -/

/-- The style of a step's status. -/
def stepStyle : StepStatus → Text.Style
  | .pending | .skipped => .dim
  | .running => .yellow
  | .success => .green
  | .failure | .timeout => .red

/-- The style of a job's status. -/
def jobStyle : JobStatus → Text.Style
  | .success => .green
  | .failure | .timeout => .red
  | .cancelled | .running => .yellow
  | .pending | .created | .queued => .dim

/-- The status of a step. -/
def stepStatus (colors : Bool) (s : StepStatus) : String := (stepStyle s).paint colors s.text

/-- The status of a job. -/
def jobStatus (colors : Bool) (s : JobStatus) : String := (jobStyle s).paint colors s.text

/-! ### Events -/

/-- The part of a job's id that is shown. -/
def shortId (id : String) : String := String.ofList (id.toList.take 8)

/-- An event of the job with an id. -/
def event (colors : Bool) (id : String) : Event → String
  | .jobStarted flow steps =>
    let flow := Text.Style.bold.paint colors flow
    let id := Text.Style.dim.paint colors (shortId id)
    s!"{Text.rocketIcon} Starting flow {flow} with {steps} steps ({id})"
  | .stepStarted _ path => Text.busyIcon ++ " " ++ Text.Style.cyan.paint colors path
  | .stepRetrying step attempt maxAttempts =>
    let step := Text.Style.yellow.paint colors step
    s!"{Text.warnIcon} {step} (attempt {attempt.toNat}/{maxAttempts.toNat})"
  | .stepFinished step status attempts error =>
    let icon := if status = .success then Text.checkIcon else Text.crossIcon
    let line := icon ++ " " ++ Text.Style.bold.paint colors step ++ " " ++ stepStatus colors status
    let line := if attempts > 1 then s!"{line} after {attempts.toNat} attempts" else line
    match error with
    | some e => line ++ ": " ++ Text.Style.dim.paint colors e
    | none => line
  | .stepSkipped step reason =>
    let step := Text.Style.dim.paint colors step
    let status := stepStatus colors .skipped
    s!"{Text.infoIcon} {step} {status} ({reason})"
  | .jobFinished status =>
    let id := Text.Style.dim.paint colors (shortId id)
    let status := jobStatus colors status
    s!"{Text.infoIcon} Job ({id}) {status}"

/-! ### Graphs -/

/-- The line of a node: its name, indented by its depth, then what it waits for, then its exit. -/
def graphLine (colors : Bool) (g : Graph) (i : Nat) (n : TreeNode) : String :=
  let indent := String.join (List.replicate (n.path.depth - 1) "  ")
  let parents :=
    if i = 0 || (g.parents i).isEmpty then ""
    else " " ++ Text.Style.dim.paint colors "<-" ++ " " ++ join ", " ((g.parents i).map g.name)
  let exit := match (g.node i).exit with
    | some e => " " ++ Text.Style.dim.paint colors ("[exit: " ++ g.name e ++ "]")
    | none => ""
  indent ++ Text.Style.bold.paint colors n.name ++ parents ++ exit ++ "\n"

/-- The graph with a line for each node, in order of declaration. -/
def graph (colors : Bool) (g : Graph) : String :=
  String.join (g.tree.nodes.mapIdx (graphLine colors g))

/-! ### Properties -/

/-- A line for a list, if there is anything in it. -/
def listLine (label : String) (items : List String) : List String :=
  if items.isEmpty then [] else ["  " ++ label ++ ": " ++ join ", " items]

/-- A file rule. -/
def fileRule (r : FileRule) : String := r.name ++ "=" ++ join ":" r.paths

/-- The effective properties of a step. -/
def properties (colors : Bool) (s : EffectiveStep) : String :=
  let script (prompt text : String) := "  " ++ Text.Style.dim.paint colors prompt ++ " " ++ text
  join "\n"
    ([Text.Style.bold.paint colors "step:" ++ " " ++ s.path,
        s!"  timeout: {s.timeout.toNat}s", s!"  retry: {s.retry.toNat}"] ++
      listLine "agents" s.agents ++ listLine "exports" s.exports ++
      listLine "secrets" s.secrets ++ listLine "configs" s.configs ++
      listLine "caches" (s.caches.map fileRule) ++
      listLine "artifacts" (s.artifacts.map fileRule) ++
      listLine "vars" (s.vars.map fun (k, v) => k ++ "=" ++ v) ++
      ((s.docker.bind (·.image)).map fun i => "  image: " ++ i).toList ++
      (if s.allowFailure then ["  allow_failure: true"] else []) ++
      s.bash.map (script "bash$") ++ s.pwsh.map (script "pwsh>") ++
      (s.plugin.map fun p => "  plugin: " ++ p).toList)

/-! ### Summaries -/

/-- A duration in seconds; from a minute on the minutes and from an hour on the hours are told. -/
def duration (seconds : Nat) : String :=
  if seconds < 60 then s!"{seconds}s"
  else if seconds < 3600 then s!"{seconds / 60}m {seconds % 60}s"
  else s!"{seconds / 3600}h {seconds % 3600 / 60}m {seconds % 60}s"

/-- The width of the column of paths. -/
def pathWidth : Nat := 40

/-- A text with blanks behind it up to a width. -/
def padded (width : Nat) (s : String) : String :=
  s ++ String.ofList (List.replicate (width - s.length) ' ')

/-- How long a job took, if it is known and not negative. -/
def jobDuration (j : Job) : String :=
  match j.started, j.finished with
  | some s, some f => if s ≤ f then duration ((f - s).toNat / 1000) else ""
  | _, _ => ""

/-- A line for each step of a job, and one for their numbers. -/
def summary (colors : Bool) (j : Job) : String :=
  let line (r : StepRecord) :=
    "  " ++ padded pathWidth r.path ++ " " ++ stepStatus colors r.status ++ "\n"
  let succeeded := Text.Style.green.paint colors (toString (j.count .success))
  let failed := Text.Style.red.paint colors (toString (j.count .failure + j.count .timeout))
  let skipped := Text.Style.dim.paint colors (toString (j.count .skipped))
  let took := Text.Style.dim.paint colors (jobDuration j)
  String.join (j.steps.map line) ++
    s!"{Text.infoIcon} {succeeded} succeeded, {failed} failed, {skipped} skipped {took}"

end StepFlow.Report
