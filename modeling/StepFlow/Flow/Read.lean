import StepFlow.Flow.Basic
import StepFlow.Yaml.Decode

/-!
Reading flow and step documents from YAML. Every field may be absent, apart from the name of a file
rule, and a field that is not listed here is a fault.
-/

namespace StepFlow

open Yaml (Document Node Fault)
open Yaml.Decode (RecordField)

/-- A field that may be absent. -/
private def maybe {σ α : Type} (name : String) (read : Node → Except Fault α) (d : Document)
    (put : Option α → σ → σ) : RecordField σ :=
  { name, set := fun n s => return put (← Yaml.Decode.optional read d n) s }

/-- A field with a list of texts. -/
private def textList {σ : Type} (name : String) (d : Document) (depth : Nat)
    (put : List String → σ → σ) : RecordField σ :=
  { name, set := fun n s => return put (← Yaml.Decode.texts d depth n) s }

/-- A field with named values. -/
private def variableTable {σ : Type} (name : String) (aliases : List String) (d : Document)
    (depth : Nat) (put : Table String → σ → σ) : RecordField σ :=
  { name, aliases, set := fun n s => return put (← Yaml.Decode.namedTexts d depth n) s }

/-! ### Containers and file rules -/

/-- The fields of container settings, whose values may enter `depth` more collections. -/
def Container.fields (d : Document) (depth : Nat) : List (RecordField Container) :=
  [ maybe "image" (Yaml.Decode.text d) d fun v c => { c with image := v },
    maybe "entrypoint" (Yaml.Decode.texts d depth) d fun v c => { c with entrypoint := v },
    maybe "command" (Yaml.Decode.texts d depth) d fun v c => { c with command := v },
    variableTable "environment" [] d depth fun v c => { c with environment := v },
    maybe "user" (Yaml.Decode.text d) d fun v c => { c with user := v },
    maybe "network" (Yaml.Decode.text d) d fun v c => { c with network := v } ]

/-- Reads container settings. -/
def Container.read (d : Document) (depth : Nat) (n : Node) : Except Fault Container :=
  Yaml.Decode.record d (Container.fields d (depth - 1)) {} depth n

/-- Reads a file rule; it must have a name. -/
def FileRule.read (d : Document) (depth : Nat) (n : Node) : Except Fault FileRule := do
  let fields : List (RecordField (Option String × List String)) :=
    [ { name := "name", set := fun n s => return (some (← Yaml.Decode.text d n), s.2) },
      { name := "paths", set := fun n s => return (s.1, ← Yaml.Decode.texts d (depth - 1) n) } ]
  match ← Yaml.Decode.record d fields (none, []) depth n with
  | (some name, paths) => return ⟨name, paths⟩
  | (none, _) => throw (.missingField "name")

/-! ### Steps -/

/-- A field of the specification as a field of the step. -/
private def specField (f : RecordField StepSpec) : RecordField Step :=
  { name := f.name
    aliases := f.aliases
    set := fun n s => return { s with spec := ← f.set n s.spec } }

/-- The fields of a step's specification. -/
def StepSpec.fields (d : Document) (depth : Nat) : List (RecordField StepSpec) :=
  [ variableTable "vars" ["variables"] d depth fun v s => { s with vars := v },
    maybe "condition" (Yaml.Decode.text d) d fun v s => { s with condition := v },
    maybe "docker" (Container.read d depth) d fun v s => { s with docker := v },
    textList "agents" d depth fun v s => { s with agents := v },
    maybe "bash" (Yaml.Decode.text d) d fun v s => { s with bash := v },
    maybe "pwsh" (Yaml.Decode.text d) d fun v s => { s with pwsh := v },
    maybe "script" (Yaml.Decode.text d) d fun v s => { s with script := v },
    maybe "post" (Yaml.Decode.flag d) d fun v s => { s with post := v },
    maybe "plugin" (Yaml.Decode.text d) d fun v s => { s with plugin := v },
    maybe "retry" (Yaml.Decode.word32 d) d fun v s => { s with retry := v },
    maybe "timeout" (Yaml.Decode.word64 d) d fun v s => { s with timeout := v },
    maybe "allow_failure" (Yaml.Decode.flag d) d fun v s => { s with allowFailure := v },
    textList "dependencies" d depth fun v s => { s with dependencies := v },
    textList "exports" d depth fun v s => { s with exports := v },
    textList "secrets" d depth fun v s => { s with secrets := v },
    textList "configs" d depth fun v s => { s with configs := v },
    { name := "caches",
      set := fun n s =>
        return { s with caches := ← Yaml.Decode.list (FileRule.read d) d depth n } },
    { name := "artifacts",
      set := fun n s =>
        return { s with artifacts := ← Yaml.Decode.list (FileRule.read d) d depth n } } ]

/-- The fields of a step; nested steps are read by `nested`. -/
def Step.fields (nested : Node → Except Fault (Table Step)) (d : Document) (depth : Nat) :
    List (RecordField Step) :=
  { name := "steps", set := fun n s => return { s with steps := ← nested n } } ::
    (StepSpec.fields d depth).map specField

/-- Reads a step. Its mapping and that of its nested steps are two levels. -/
def Step.read (d : Document) : Nat → Node → Except Fault Step
  | 0, n => Yaml.Decode.record d (Step.fields (fun _ => .error .tooDeep) d 0) {} 0 n
  | 1, n =>
    let nested := Yaml.Decode.table (fun _ => .error .tooDeep) d 0
    Yaml.Decode.record d (Step.fields nested d 0) {} 1 n
  | depth + 2, n =>
    let nested := Yaml.Decode.table (Step.read d depth) d (depth + 1)
    Yaml.Decode.record d (Step.fields nested d (depth + 1)) {} (depth + 2) n

/-! ### Flows -/

/-- The fields of a flow. -/
def Flow.fields (d : Document) (depth : Nat) : List (RecordField Flow) :=
  [ maybe "version" (Yaml.Decode.word32 d) d fun v f => { f with version := v },
    maybe "name" (Yaml.Decode.text d) d fun v f => { f with name := v },
    variableTable "vars" ["variables"] d depth fun v f => { f with vars := v },
    maybe "condition" (Yaml.Decode.text d) d fun v f => { f with condition := v },
    maybe "docker" (Container.read d depth) d fun v f => { f with docker := v },
    textList "agents" d depth fun v f => { f with agents := v },
    { name := "steps",
      set := fun n f =>
        return { f with steps := ← Yaml.Decode.table (Step.read d (depth - 1)) d depth n } } ]

/-- Reads a flow. -/
def Flow.read (d : Document) (depth : Nat) (n : Node) : Except Fault Flow :=
  Yaml.Decode.record d (Flow.fields d (depth - 1)) {} depth n

end StepFlow
