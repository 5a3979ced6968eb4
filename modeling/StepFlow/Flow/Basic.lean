import StepFlow.Table

/-!
Flow documents: a flow with its steps, which may have steps of their own. What a step says about
itself is its specification; a step with nested steps is a stage.
-/

namespace StepFlow

/-- Container settings for the agent that runs a step. -/
structure Container where
  image : Option String := none
  entrypoint : Option (List String) := none
  command : Option (List String) := none
  environment : Table String := []
  user : Option String := none
  network : Option String := none
  deriving DecidableEq, Repr

/-- A named set of paths in the workspace, to be cached or to be kept as an artifact. -/
structure FileRule where
  name : String
  paths : List String := []
  deriving DecidableEq, Repr

/-- What a step says about itself, apart from its nested steps. -/
structure StepSpec where
  vars : Table String := []
  condition : Option String := none
  docker : Option Container := none
  agents : List String := []
  bash : Option String := none
  pwsh : Option String := none
  /-- An older spelling of `bash`. -/
  script : Option String := none
  /-- The step runs whatever happened before it. -/
  post : Option Bool := none
  plugin : Option String := none
  /-- How often the step may be tried again. -/
  retry : Option UInt32 := none
  /-- The seconds that one attempt may take. -/
  timeout : Option UInt64 := none
  allowFailure : Option Bool := none
  /-- The steps that this one waits for, instead of the one before it. -/
  dependencies : List String := []
  exports : List String := []
  secrets : List String := []
  configs : List String := []
  caches : List FileRule := []
  artifacts : List FileRule := []
  deriving DecidableEq, Repr

/-- A step with its nested steps. -/
structure Step where
  spec : StepSpec := {}
  steps : List (String × Step) := []

mutual

/-- Steps are compared with all that is inside them. -/
def Step.decideEq : (s t : Step) → Decidable (s = t)
  | ⟨spec, inner⟩, ⟨spec', inner'⟩ =>
    match decEq spec spec', Step.decideAllEq inner inner' with
    | isTrue h, isTrue h' => isTrue (by rw [h, h'])
    | isFalse h, _ => isFalse fun heq => h (Step.mk.inj heq).1
    | _, isFalse h => isFalse fun heq => h (Step.mk.inj heq).2

/-- Steps of a list are compared in their order, each with its name. -/
def Step.decideAllEq : (l m : List (String × Step)) → Decidable (l = m)
  | [], [] => isTrue rfl
  | [], _ :: _ => isFalse nofun
  | _ :: _, [] => isFalse nofun
  | (name, s) :: l, (name', t) :: m =>
    match decEq name name', Step.decideEq s t, Step.decideAllEq l m with
    | isTrue h, isTrue h', isTrue h'' => isTrue (by rw [h, h', h''])
    | isFalse h, _, _ => isFalse fun heq => h (congrArg Prod.fst (List.cons.inj heq).1)
    | _, isFalse h, _ => isFalse fun heq => h (congrArg Prod.snd (List.cons.inj heq).1)
    | _, _, isFalse h => isFalse fun heq => h (List.cons.inj heq).2

end

instance : DecidableEq Step := Step.decideEq

/-- A flow document. -/
structure Flow where
  version : Option UInt32 := none
  name : Option String := none
  vars : Table String := []
  condition : Option String := none
  docker : Option Container := none
  agents : List String := []
  steps : Table Step := []
  deriving DecidableEq

namespace StepSpec

/-- The script for the Unix shell, under either spelling. -/
def effectiveBash (s : StepSpec) : Option String := s.bash.orElse fun _ => s.script

/-- The step has something to run. -/
def hasBody (s : StepSpec) : Bool := s.effectiveBash.isSome || s.pwsh.isSome || s.plugin.isSome

end StepSpec

/-- A step with nested steps is a stage. -/
def Step.isStage (s : Step) : Bool := !s.steps.isEmpty

/-- The name of a flow that does not set one. -/
def Flow.defaultName : String := "root"

/-- The name of a flow. -/
def Flow.effectiveName (f : Flow) : String := f.name.getD Flow.defaultName

end StepFlow
