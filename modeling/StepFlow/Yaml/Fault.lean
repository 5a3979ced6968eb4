/-!
What can be wrong with a YAML text that should hold a record, a list or a scalar of a given kind.
-/

namespace StepFlow.Yaml

/-- Why a text could not be read. -/
inductive Fault where
  /-- The text is no YAML from some place on. -/
  | malformed
  /-- A record has a field it does not know. -/
  | unknownField (name : String)
  /-- A record lacks a field it must have. -/
  | missingField (name : String)
  /-- A record sets a field twice; the name is the record's own for it. -/
  | duplicateField (name : String)
  /-- The value of a variable is no scalar. -/
  | compoundVariable (key : String)
  /-- A mapping that is read as a plain value repeats a key. -/
  | duplicateKey
  /-- A value has the wrong kind or is out of range. -/
  | unfit
  /-- Collections are nested too deeply. -/
  | tooDeep
  /-- There is a second document behind the first. -/
  | manyDocuments
  deriving DecidableEq, Repr

/-- The wording of a fault. -/
def Fault.message : Fault → String
  | .malformed => "malformed text"
  | .unknownField name => s!"unknown field '{name}'"
  | .missingField name => s!"missing field '{name}'"
  | .duplicateField name => s!"duplicate field '{name}'"
  | .compoundVariable key => s!"variable '{key}' must be a scalar value"
  | .duplicateKey => "duplicate entry"
  | .unfit => "value of the wrong kind or out of range"
  | .tooDeep => "recursion limit exceeded"
  | .manyDocuments => "more than one document"

end StepFlow.Yaml
