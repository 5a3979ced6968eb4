import StepFlow.Effective
import StepFlow.Flow.Print

/-!
Nodes of the step tree and effective properties as JSON.
-/

namespace StepFlow

open Json (field? listField tableField)

/-- A node as JSON; where it stands in the tree is told by its path alone. -/
def TreeNode.toJson (n : TreeNode) : Json :=
  .obj ([("name", .str n.name), ("path", .str n.path.text)] ++ tableField "vars" n.vars ++
    field? "condition" .str n.condition ++ field? "docker" Container.toJson n.docker ++
    listField "agents" .str n.agents ++ field? "bash" .str n.bash ++ field? "pwsh" .str n.pwsh ++
    field? "plugin" .str n.plugin ++
    [("post", .bool n.post), ("allow_failure", .bool n.allowFailure)] ++
    field? "timeout" (fun t => Json.nat t.toNat) n.timeout ++
    field? "retry" (fun r => Json.nat r.toNat) n.retry ++
    [("exports", Json.strs n.exports), ("secrets", Json.strs n.secrets),
      ("configs", Json.strs n.configs), ("caches", .arr (n.caches.map FileRule.toJson)),
      ("artifacts", .arr (n.artifacts.map FileRule.toJson)),
      ("dependencies", Json.strs n.dependencies)])

/-- Effective properties as JSON; nothing is left out. -/
def EffectiveStep.toJson (s : EffectiveStep) : Json :=
  .obj [("name", .str s.name), ("path", .str s.path), ("bash", Json.strs s.bash),
    ("pwsh", Json.strs s.pwsh), ("conditions", Json.strs s.conditions),
    ("exports", Json.strs s.exports), ("secrets", Json.strs s.secrets),
    ("configs", Json.strs s.configs), ("timeout_secs", Json.nat s.timeout.toNat),
    ("retry", Json.nat s.retry.toNat), ("caches", .arr (s.caches.map FileRule.toJson)),
    ("artifacts", .arr (s.artifacts.map FileRule.toJson)), ("vars", Json.table s.vars),
    ("agents", Json.strs s.agents), ("docker", (s.docker.map Container.toJson).getD .null),
    ("plugin", Json.str? s.plugin), ("allow_failure", .bool s.allowFailure),
    ("post", .bool s.post)]

/-- Defaults as JSON. -/
def StepDefaults.toJson (d : StepDefaults) : Json :=
  .obj [("retry", Json.nat d.retry.toNat), ("timeout_secs", Json.nat d.timeout.toNat)]

end StepFlow
