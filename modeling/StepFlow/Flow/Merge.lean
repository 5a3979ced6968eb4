import StepFlow.Flow.Basic

/-!
Merging flow documents. An overlay is laid over a base: single values of the overlay win, tables
and lists are united, and nested steps are merged by name. Nothing that is only in the base is
lost. Two values that a table cannot hold at once, or two rules of one name, are a conflict, and so
are two versions.
-/

namespace StepFlow

/-- Why two documents cannot be merged; the address says where, its parts joined by dots. -/
inductive Conflict where
  | version (base overlay : UInt32)
  | values (address : List String) (base overlay : String)
  | rules (address : List String)
  deriving DecidableEq, Repr

namespace Conflict

/-- Where the conflict is. -/
def address : Conflict → List String
  | .version _ _ => ["version"]
  | .values a _ _ | .rules a => a

/-- What the conflict is about. -/
def cause : Conflict → String
  | .version a b => s!"cannot merge version {a} with version {b}"
  | .values _ a b => s!"conflicting values '{a}' and '{b}'"
  | .rules _ => "rule defined twice with different paths"

end Conflict

namespace Merge

/-- The overlay's value, if it has one. -/
def scalar {α : Type} (base overlay : Option α) : Option α := overlay.orElse fun _ => base

/-- The items of the base, and those of the overlay that are not there yet. -/
def list (base : List String) : List String → List String
  | [] => base
  | x :: r => if x ∈ base then list base r else list (base ++ [x]) r

/-- The entries of the base, and those of the overlay that are not there yet. Two values of one
name must be the same. -/
def vars (address : List String) (base : Table String) :
    Table String → Except Conflict (Table String)
  | [] => .ok base
  | (key, v) :: r =>
    match base.get? key with
    | some w => if w = v then vars address base r else .error (.values (address ++ [key]) w v)
    | none => vars address (base ++ [(key, v)]) r

/-- The rules of the base, and those of the overlay that are not there yet. Two rules of one name
must be the same. -/
def rules (address : List String) (base : List FileRule) :
    List FileRule → Except Conflict (List FileRule)
  | [] => .ok base
  | x :: r =>
    match base.find? fun y => y.name = x.name with
    | some y => if y = x then rules address base r else .error (.rules (address ++ [x.name]))
    | none => rules address (base ++ [x]) r

/-- Container settings field by field; settings that only one side has are taken as they are. -/
def docker (address : List String) (base overlay : Option Container) :
    Except Conflict (Option Container) :=
  match base, overlay with
  | base, none => .ok base
  | none, some o => .ok (some o)
  | some b, some o => do
    let environment ← vars (address ++ ["environment"]) b.environment o.environment
    return some {
      image := scalar b.image o.image
      entrypoint := scalar b.entrypoint o.entrypoint
      command := scalar b.command o.command
      environment
      user := scalar b.user o.user
      network := scalar b.network o.network }

/-- The scripts under both spellings: a script of the overlay becomes the only one. -/
def scripts (base overlay : StepSpec) : Option String × Option String :=
  match overlay.effectiveBash with
  | some s => (some s, none)
  | none => (base.bash, base.script)

/-- What two steps say about themselves. -/
def spec (address : List String) (b o : StepSpec) : Except Conflict StepSpec := do
  let vars ← vars (address ++ ["vars"]) b.vars o.vars
  let docker ← docker (address ++ ["docker"]) b.docker o.docker
  let caches ← rules (address ++ ["caches"]) b.caches o.caches
  let artifacts ← rules (address ++ ["artifacts"]) b.artifacts o.artifacts
  let (bash, script) := scripts b o
  return {
    vars, docker, caches, artifacts, bash, script
    condition := scalar b.condition o.condition
    agents := list b.agents o.agents
    pwsh := scalar b.pwsh o.pwsh
    post := scalar b.post o.post
    plugin := scalar b.plugin o.plugin
    retry := scalar b.retry o.retry
    timeout := scalar b.timeout o.timeout
    allowFailure := scalar b.allowFailure o.allowFailure
    dependencies := list b.dependencies o.dependencies
    exports := list b.exports o.exports
    secrets := list b.secrets o.secrets
    configs := list b.configs o.configs }

mutual

/-- A step of the overlay over one of the base. -/
def step (address : List String) (base : Step) : Step → Except Conflict Step
  | ⟨o, inner⟩ => do
    let spec ← spec address base.spec o
    let steps ← steps (address ++ ["steps"]) base.steps inner
    return ⟨spec, steps⟩

/-- The steps of the base with those of the overlay: a step whose name is there is merged, any
other is added. -/
def steps (address : List String) (base : Table Step) :
    List (String × Step) → Except Conflict (Table Step)
  | [] => .ok base
  | (name, s) :: r =>
    match base.get? name with
    | some b => do
      let merged ← step (address ++ [name]) b s
      steps address (base.insert name merged) r
    | none => steps address (base ++ [(name, s)]) r

end

end Merge

/-- A flow laid over another one. -/
def Flow.merge (base overlay : Flow) : Except Conflict Flow := do
  let version ←
    match base.version, overlay.version with
    | some a, some b => if a = b then pure (some a) else throw (.version a b)
    | none, some b => pure (some b)
    | v, none => pure v
  let vars ← Merge.vars ["vars"] base.vars overlay.vars
  let docker ← Merge.docker ["docker"] base.docker overlay.docker
  let steps ← Merge.steps ["steps"] base.steps overlay.steps
  return {
    version, vars, docker, steps
    name := Merge.scalar base.name overlay.name
    condition := Merge.scalar base.condition overlay.condition
    agents := Merge.list base.agents overlay.agents }

end StepFlow
