import StepFlow.CommandLine
import StepFlow.Flow.Load
import StepFlow.Job.Timeline
import StepFlow.Report
import StepFlow.Settings
import StepFlow.Tree.Print

/-!
A session of the program as a function: from a command line and the texts of the files it names to
what is printed and how the program ends. A flow is never really run: the agent is that of the dry
run.
-/

namespace StepFlow.Session

/-- The name of the program. -/
def name : String := "flowline"

/-- The version of the program. -/
def version : String := "0.1.0"

/-- What the program is told about the world. -/
structure World where
  /-- The text of a file, or why it cannot be read. -/
  file : String → Except String String
  /-- The time at which the program starts. -/
  now : Time := 0
  /-- How points in time are written. -/
  time : Time → String
  /-- The id for the job, if one is run. -/
  jobId : String
  /-- Texts may have colours. -/
  colors : Bool := false

/-- How the program ended. -/
structure Ended where
  code : Nat := 0
  stdout : String := ""
  /-- What is told about the job while it runs. -/
  notices : List String := []
  /-- The report of what went wrong. -/
  error : Option String := none
  deriving DecidableEq, Repr

/-! ### Failures -/

/-- What went wrong, and what that goes back to, one after the other. -/
structure Failure where
  message : String
  causes : List String := []
  deriving DecidableEq, Repr

namespace Failure

/-- A failure as the cause of another one. -/
def within (message : String) (f : Failure) : Failure := ⟨message, f.message :: f.causes⟩

/-- The failure on one line. -/
def inline (f : Failure) : String := Text.join ": " (f.message :: f.causes)

/-- A text in which all lines but the first are indented. -/
def hanging (indent text : String) : String :=
  String.join (text.toList.map fun c => if c = '\n' then "\n" ++ indent else c.toString)

/-- The lines of a cause; it is numbered if there are several. -/
def causeLines (numbered : Bool) (n : Nat) (cause : String) : String :=
  if numbered then
    let number := toString n
    "\n" ++ String.ofList (List.replicate (5 - number.length) ' ') ++ number ++ ": " ++
      hanging "       " cause
  else "\n    " ++ hanging "    " cause

/-- The report of a failure. -/
def report (f : Failure) : String :=
  let causes :=
    if f.causes.isEmpty then ""
    else "\n\nCaused by:" ++ String.join (f.causes.mapIdx (causeLines (f.causes.length > 1)))
  "Error: " ++ f.message ++ causes ++ "\n"

end Failure

/-! ### Reading files -/

/-- The settings: those of a file, or the defaults. -/
def settings (w : World) : Option String → Except Failure Settings
  | none => .ok {}
  | some path =>
    match w.file path with
    | .error cause => .error ⟨"Failed to read config file " ++ path, [cause]⟩
    | .ok text =>
      match Settings.parse text with
      | .ok s => .ok s
      | .error e =>
        let causes := match e with
          | .yaml fault => ["Failed to parse engine config", fault.message]
          | .zero _ => [e.message]
        .error ⟨"Invalid config file " ++ path, causes⟩

/-- The texts of files, in their order. -/
def texts (w : World) : List String → Except Failure (List String)
  | [] => .ok []
  | path :: rest =>
    match w.file path with
    | .error cause => .error ⟨"Failed to read pipeline file " ++ path, [cause]⟩
    | .ok text => (texts w rest).map (text :: ·)

/-- Why texts make no flow, as a failure. -/
def loadFailure (e : LoadError) : Failure :=
  let causes := match e with
    | .read (.yaml fault) => [fault.message]
    | _ => []
  Failure.within "Failed to load pipeline documents" ⟨e.message, causes⟩

/-- The flow that files make. -/
def load (w : World) (files : List String) : Except Failure Flow := do
  (Flow.load (← texts w files)).mapError loadFailure

/-- The graph of a flow. -/
def compile (f : Flow) : Except Failure Graph :=
  f.compile.mapError fun e => ⟨"Failed to compile flow", [e.message]⟩

/-! ### Commands -/

private def line (s : String) : String := s ++ "\n"

/-- Tells whether files make a flow with a graph. -/
def validate (w : World) (files : List String) (json : Bool) : Ended :=
  let flow := load w files
  let checked := flow.bind fun f => (compile f).map fun g => (f, g)
  let head := line s!"{Text.infoIcon} Validating {files.length} document(s)..."
  match checked with
  | .error e =>
    let cause := Text.Style.red.paint w.colors e.inline
    { code := 1
      stdout := head ++ line s!"{Text.crossIcon} Validation failed:" ++ line s!"  {cause}" }
  | .ok (f, g) =>
    let name := Text.Style.bold.paint w.colors f.effectiveName
    let steps := Text.Style.cyan.paint w.colors (toString (g.size - 1))
    let vars := Text.Style.cyan.paint w.colors (toString f.vars.length)
    { stdout := head ++ line s!"{Text.checkIcon} Flow is valid!" ++ line s!"  Name: {name}" ++
        line s!"  Steps: {steps}" ++ line s!"  Variables: {vars}" ++
        if json then line ("\n" ++ f.toJson.pretty) else "" }

/-- Shows the graph. -/
def graph (w : World) (files : List String) (json : Bool) : Except Failure Ended := do
  let g ← compile (← load w files)
  return { stdout :=
    if json then line (Json.arr (g.view.map Graph.NodeView.toJson)).pretty
    else Report.graph w.colors g }

/-- Shows the effective properties of a step. -/
def resolve (w : World) (s : Settings) (files : List String) (step : String) (json : Bool) :
    Except Failure Ended := do
  let g ← compile (← load w files)
  match (g.tree.idOf? step).bind fun i => g.tree.resolve? i s.stepDefaults with
  | none => throw { message := s!"No step named '{step}'" }
  | some e =>
    return { stdout := line (if json then e.toJson.pretty else Report.properties w.colors e) }

/-- The flow with variables overridden, and what is told about it. -/
def override (w : World) (vars : List (String × String)) (f : Flow) : Flow × String :=
  vars.foldl (fun (f, out) (key, value) =>
    let shown := Text.Style.cyan.paint w.colors key ++ " = " ++ Text.Style.dim.paint w.colors value
    ({ f with vars := Table.insert key value f.vars },
      out ++ line s!"{Text.infoIcon} Variable override: {shown}")) (f, "")

/-- What is printed about a job that is over. -/
def verdict (w : World) (j : Job) : String :=
  let flow := Text.Style.bold.paint w.colors j.flow
  if j.status = .success then
    let how := Text.Style.green.paint w.colors "successfully"
    line s!"\n{Text.checkIcon} {flow} completed {how}"
  else
    let status := Report.jobStatus w.colors j.status
    line s!"\n{Text.crossIcon} {flow} {status}"

/-- Runs a flow with the agent of the dry run. What was printed before a failure stays. -/
def run (w : World) (s : Settings) (files : List String) (vars : List (String × String))
    (maxParallel : Option UInt64) (json : Bool) : Ended :=
  let failed (stdout : String) (f : Failure) : Ended :=
    { code := 1, stdout, error := some f.report }
  match load w files with
  | .error e => failed "" e
  | .ok flow =>
    let (flow, overrides) := override w vars flow
    let s := { s with maxParallel := maxParallel.getD s.maxParallel }
    match s.check with
    | .error e => failed overrides { message := e.message }
    | .ok () =>
      match compile flow with
      | .error e => failed overrides e
      | .ok g =>
        let name := Text.Style.bold.paint w.colors flow.effectiveName
        let plan : WalkPlan :=
          { graph := g, defaults := s.stepDefaults, maxParallel := s.maxParallel.toNat }
        let d := (Timeline.run plan (DryRun.agent []) w.now s.jobTimeout).finish plan
        let told :=
          if json then (d.job.toJson w.jobId w.time).pretty else Report.summary w.colors d.job
        { code := if d.job.status = .success then 0 else 1
          stdout := overrides ++ line s!"{Text.infoIcon} Loaded flow: {name}" ++ line told ++
            verdict w d.job
          notices := d.events.map (Report.event w.colors w.jobId) }

/-- What a command line asks for. -/
def invoke (w : World) (i : CommandLine.Invocation) : Ended :=
  let ended : Except Failure Ended := do
    let s ← settings w i.config
    match i.task with
    | .validate => return validate w i.files i.json
    | .graph => graph w i.files i.json
    | .resolve step => resolve w s i.files step i.json
    | .run vars maxParallel => return run w s i.files vars maxParallel i.json
  match ended with
  | .ok e => e
  | .error f => { code := 1, error := some f.report }

/-- What is shown to those who ask for help. -/
def usage : String :=
  "Usage: " ++ name ++ " [-v] [-c CONFIG] COMMAND FILE... [--json]\n\n" ++
  "Commands:\n" ++
  "  validate  merge and compile the files, and report the first error\n" ++
  "  graph     print the execution graph\n" ++
  "  resolve   print the effective properties of a step (-s STEP)\n" ++
  "  run       dry-run the flow (--var KEY=VALUE, --max-parallel N)\n" ++
  "  help      print this text\n"

/-- The session that the arguments of the program ask for. -/
def ofArgs (w : World) (args : List String) : Ended :=
  match CommandLine.parse args with
  | .ok i => invoke w i
  | .error .showVersion => { stdout := line (name ++ " " ++ version) }
  | .error .showHelp => { stdout := usage }
  | .error _ => { code := 2, notices := [usage] }

end StepFlow.Session
