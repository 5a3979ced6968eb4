import StepFlow.Flow.Check
import StepFlow.Flow.Merge
import StepFlow.Flow.Read

/-!
From texts to one flow: every text is read and checked, and the flows are merged in their order
onto an empty one.
-/

namespace StepFlow

/-- Why a text is no document. -/
inductive ReadError where
  /-- There is nothing but blanks. -/
  | empty
  | yaml (fault : Yaml.Fault)
  | check (error : CheckError)
  deriving DecidableEq, Repr

/-- The wording of the error. -/
def ReadError.message : ReadError → String
  | .empty => "format error: empty document"
  | .yaml fault => "format error: " ++ fault.message
  | .check error => "format error: " ++ error.message

/-- Why texts do not make one flow. -/
inductive LoadError where
  | read (error : ReadError)
  | merge (conflict : Conflict)
  deriving DecidableEq, Repr

/-- The wording of the error. -/
def LoadError.message : LoadError → String
  | .read error => error.message
  | .merge conflict =>
    let field := Text.join "." conflict.address
    s!"merge error on '{field}': {conflict.cause}"

/-- The name under which a step document that stands alone is checked. -/
def Step.standaloneName : String := "<step>"

/-- Reads and checks a flow document. -/
def Flow.parse (text : String) : Except ReadError Flow :=
  if Text.isBlankText text then .error .empty
  else
    match Yaml.Decode.only Flow.read text with
    | .error fault => .error (.yaml fault)
    | .ok flow =>
      match flow.check with
      | .error e => .error (.check e)
      | .ok () => .ok flow

/-- Reads and checks a document with a single step. -/
def Step.parse (text : String) : Except ReadError Step :=
  if Text.isBlankText text then .error .empty
  else
    match Yaml.Decode.only Step.read text with
    | .error fault => .error (.yaml fault)
    | .ok step =>
      match step.check standaloneName with
      | .error e => .error (.check e)
      | .ok () => .ok step

/-- Reads the texts one after the other and merges each onto what came before. -/
def Flow.loadOnto (flow : Flow) : List String → Except LoadError Flow
  | [] => .ok flow
  | text :: rest =>
    match Flow.parse text with
    | .error e => .error (.read e)
    | .ok next =>
      match flow.merge next with
      | .error c => .error (.merge c)
      | .ok merged => loadOnto merged rest

/-- The flow that the texts make together. -/
def Flow.load (texts : List String) : Except LoadError Flow := loadOnto {} texts

end StepFlow
