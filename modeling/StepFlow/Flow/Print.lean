import StepFlow.Flow.Basic
import StepFlow.Json

/-!
Flow documents as JSON. Fields stand in a fixed order, and most of them are left out when they are
unset or empty.
-/

namespace StepFlow

namespace Json

/-- A field that is left out when it is unset. -/
def field? {α : Type} (name : String) (f : α → Json) (v : Option α) : List (String × Json) :=
  (v.map fun x => (name, f x)).toList

/-- A field that is left out when its list is empty. -/
def listField {α : Type} (name : String) (f : α → Json) (items : List α) : List (String × Json) :=
  if items.isEmpty then [] else [(name, .arr (items.map f))]

/-- The object of a table of texts. -/
def table (t : Table String) : Json := .obj (t.map fun (k, v) => (k, .str v))

/-- A table of texts that is left out when it is empty. -/
def tableField (name : String) (t : Table String) : List (String × Json) :=
  if t.isEmpty then [] else [(name, table t)]

end Json

open Json (field? listField tableField)

/-- Container settings as JSON. -/
def Container.toJson (c : Container) : Json :=
  .obj (field? "image" .str c.image ++ field? "entrypoint" Json.strs c.entrypoint ++
    field? "command" Json.strs c.command ++ tableField "environment" c.environment ++
    field? "user" .str c.user ++ field? "network" .str c.network)

/-- A file rule as JSON; neither field is ever left out. -/
def FileRule.toJson (r : FileRule) : Json :=
  .obj [("name", .str r.name), ("paths", Json.strs r.paths)]

mutual

/-- A step as JSON. -/
def Step.toJson : Step → Json
  | ⟨s, steps⟩ =>
    .obj (tableField "vars" s.vars ++ field? "condition" .str s.condition ++
      field? "docker" Container.toJson s.docker ++ listField "agents" .str s.agents ++
      (if steps.isEmpty then [] else [("steps", .obj (Step.members steps))]) ++
      field? "bash" .str s.bash ++ field? "pwsh" .str s.pwsh ++ field? "script" .str s.script ++
      field? "post" .bool s.post ++ field? "plugin" .str s.plugin ++
      field? "retry" (fun n => Json.nat n.toNat) s.retry ++
      field? "timeout" (fun n => Json.nat n.toNat) s.timeout ++
      field? "allow_failure" .bool s.allowFailure ++
      listField "dependencies" .str s.dependencies ++ listField "exports" .str s.exports ++
      listField "secrets" .str s.secrets ++ listField "configs" .str s.configs ++
      listField "caches" FileRule.toJson s.caches ++
      listField "artifacts" FileRule.toJson s.artifacts)

/-- Steps as the members of an object. -/
def Step.members : List (String × Step) → List (String × Json)
  | [] => []
  | (name, step) :: rest => (name, step.toJson) :: Step.members rest

end

/-- A flow as JSON; variables, agents and steps are never left out. -/
def Flow.toJson (f : Flow) : Json :=
  .obj (field? "version" (fun n => Json.nat n.toNat) f.version ++ field? "name" .str f.name ++
    [("vars", Json.table f.vars)] ++ field? "condition" .str f.condition ++
    field? "docker" Container.toJson f.docker ++ [("agents", Json.strs f.agents)] ++
    [("steps", .obj (Step.members f.steps))])

end StepFlow
