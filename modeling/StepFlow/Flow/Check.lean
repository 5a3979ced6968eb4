import StepFlow.Flow.Basic
import StepFlow.Path

/-!
What a flow document must satisfy beyond its form: valid names, no empty time limits, and file
rules whose paths are relative and do not overlap. A document is gone through in its own order and
the first thing that is wrong is reported.
-/

namespace StepFlow

/-- What the files of a rule are kept for. -/
inductive RuleKind where
  | cache
  | artifact
  deriving DecidableEq, Repr

/-- The word for a kind of rule. -/
def RuleKind.word : RuleKind → String
  | .cache => "cache"
  | .artifact => "artifact"

/-- What is wrong with a flow document. -/
inductive CheckError where
  | flowName (name : String)
  | stepName (name : String)
  | zeroTimeout (step : String)
  | ruleName (step : String) (kind : RuleKind) (rule : String)
  | absolutePath (step : String) (kind : RuleKind) (rule path : String)
  | overlap (step : String) (kind : RuleKind) (rule : String)
  | repeatedRule (step : String) (kind : RuleKind) (rule : String)
  deriving DecidableEq, Repr

/-- The wording of what is wrong. -/
def CheckError.message : CheckError → String
  | .flowName name => s!"invalid flow name '{name}'"
  | .stepName name => s!"illegal step name '{name}'"
  | .zeroTimeout step => s!"step '{step}' timeout must be at least 1 second"
  | .ruleName step kind rule => s!"step '{step}' has {kind.word} with invalid name '{rule}'"
  | .absolutePath step kind rule path =>
    s!"step '{step}' {kind.word} '{rule}': path '{path}' must be relative"
  | .overlap step kind rule =>
    s!"step '{step}' {kind.word} '{rule}': paths overlap or are duplicated"
  | .repeatedRule step kind rule => s!"step '{step}' defines {kind.word} '{rule}' more than once"

namespace FileRule

/-! ### Overlap -/

/-- Takes leading `./` off, as often as it stands there. -/
def dropHere : List Char → List Char
  | '.' :: '/' :: r => dropHere r
  | cs => cs

/-- A path as it is compared: without blanks around it, leading `./` and slashes at its end. -/
def normalPath (path : String) : List Char :=
  ((dropHere (Text.trimChars path.toList)).reverse.dropWhile (· == '/')).reverse

/-- The path `b` is inside the directory `a`. -/
def inside (a b : List Char) : Bool := (a ++ ['/']).isPrefixOf b

/-- Two paths, as they are compared, are the same or one is inside the other. -/
def overlapping (a b : List Char) : Bool := a = b || inside a b || inside b a

/-- Some two of the paths overlap. -/
def anyOverlap : List (List Char) → Bool
  | [] => false
  | a :: r => r.any (overlapping a) || anyOverlap r

/-- A path must be more than blanks, and not start at the root. -/
def isRelative (path : String) : Bool :=
  !Text.isBlankText path && path.toList.head? != some '/'

/-- Checks one rule of a step. -/
def check (step : String) (kind : RuleKind) (r : FileRule) : Except CheckError Unit :=
  if !Name.valid r.name then .error (.ruleName step kind r.name)
  else
    match r.paths.find? fun p => !isRelative p with
    | some path => .error (.absolutePath step kind r.name path)
    | none =>
      if anyOverlap (r.paths.map normalPath) then .error (.overlap step kind r.name) else .ok ()

/-- Checks the rules of one kind; no name may be used twice. -/
def checkAll (step : String) (kind : RuleKind) :
    List String → List FileRule → Except CheckError Unit
  | _, [] => .ok ()
  | seen, r :: rest => do
    r.check step kind
    if r.name ∈ seen then throw (.repeatedRule step kind r.name)
    checkAll step kind (r.name :: seen) rest

end FileRule

/-- Checks what a step says about itself. -/
def StepSpec.check (name : String) (s : StepSpec) : Except CheckError Unit := do
  if s.timeout = some 0 then throw (.zeroTimeout name)
  FileRule.checkAll name .cache [] s.caches
  FileRule.checkAll name .artifact [] s.artifacts

mutual

/-- Checks a step and the steps inside it. -/
def Step.check (name : String) : Step → Except CheckError Unit
  | ⟨spec, steps⟩ => do
    spec.check name
    Step.checkAll steps

/-- Checks steps with their names, one after the other. -/
def Step.checkAll : List (String × Step) → Except CheckError Unit
  | [] => .ok ()
  | (name, step) :: rest => do
    if !Name.valid name then throw (.stepName name)
    Step.check name step
    Step.checkAll rest

end

/-- Checks a flow: its name if it sets one, and its steps. -/
def Flow.check (f : Flow) : Except CheckError Unit := do
  match f.name with
  | some name => if !Name.valid name then throw (.flowName name)
  | none => pure ()
  Step.checkAll f.steps

end StepFlow
