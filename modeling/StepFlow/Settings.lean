import StepFlow.Effective
import StepFlow.Json
import StepFlow.Yaml.Decode

/-!
Settings of the engine, read from a YAML record in which every field may be left out. Limits must
be at least one.
-/

namespace StepFlow

/-- The settings of the engine. -/
structure Settings where
  /-- The seconds that one attempt may take, unless the flow says otherwise. -/
  defaultTimeout : UInt64 := 3600
  /-- How often a step may be tried again, unless the flow says otherwise. -/
  defaultRetry : UInt32 := 0
  /-- How many steps may be run at once. -/
  maxParallel : UInt64 := 4
  /-- The seconds that a job may take. -/
  jobTimeout : Option UInt64 := none
  deriving DecidableEq, Repr

/-- Why a text makes no settings. -/
inductive SettingsError where
  | yaml (fault : Yaml.Fault)
  /-- A limit is zero. -/
  | zero (field : String)
  deriving DecidableEq, Repr

/-- The wording of the error. -/
def SettingsError.message : SettingsError → String
  | .yaml fault => fault.message
  | .zero field => field ++ " must be at least 1"

namespace Settings

open Yaml (Document Node Fault)
open Yaml.Decode (RecordField)

/-- The fields of the settings. -/
def fields (d : Document) : List (RecordField Settings) :=
  [ { name := "default_timeout_secs",
      set := fun n s => return { s with defaultTimeout := ← Yaml.Decode.word64 d n } },
    { name := "default_retry",
      set := fun n s => return { s with defaultRetry := ← Yaml.Decode.word32 d n } },
    { name := "max_parallel",
      set := fun n s => return { s with maxParallel := ← Yaml.Decode.word64 d n } },
    { name := "job_timeout_secs",
      set := fun n s =>
        return { s with jobTimeout := ← Yaml.Decode.optional (Yaml.Decode.word64 d) d n } } ]

/-- Reads settings; what is not set keeps its default. -/
def read (d : Document) (depth : Nat) (n : Node) : Except Fault Settings :=
  Yaml.Decode.record d (fields d) {} depth n

/-- No limit is zero. -/
def check (s : Settings) : Except SettingsError Unit :=
  if s.maxParallel = 0 then .error (.zero "max_parallel")
  else if s.defaultTimeout = 0 then .error (.zero "default_timeout_secs")
  else if s.jobTimeout = some 0 then .error (.zero "job_timeout_secs")
  else .ok ()

/-- The settings that a text writes; a blank text writes the defaults. -/
def parse (text : String) : Except SettingsError Settings :=
  if Text.isBlankText text then .ok {}
  else
    match Yaml.Decode.only read text with
    | .error fault => .error (.yaml fault)
    | .ok s =>
      match s.check with
      | .error e => .error e
      | .ok () => .ok s

/-- What holds for a step of which no node of its chain says otherwise. -/
def stepDefaults (s : Settings) : StepDefaults :=
  { retry := s.defaultRetry, timeout := s.defaultTimeout }

/-- Settings as JSON. -/
def toJson (s : Settings) : Json :=
  .obj ([("default_timeout_secs", Json.nat s.defaultTimeout.toNat),
    ("default_retry", Json.nat s.defaultRetry.toNat),
    ("max_parallel", Json.nat s.maxParallel.toNat)] ++
    (s.jobTimeout.map fun t => ("job_timeout_secs", Json.nat t.toNat)).toList)

end Settings

end StepFlow
