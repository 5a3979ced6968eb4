import StepFlow.CommandLine.Options
import StepFlow.Text.Blank

/-!
The command line of the program: the commands with their files and options, and the two options
that may stand anywhere.
-/

namespace StepFlow.CommandLine

/-- What is to be done with the flow that the files make. -/
inductive Task where
  | validate
  | graph
  | resolve (step : String)
  | run (vars : List (String × String)) (maxParallel : Option UInt64)
  deriving DecidableEq, Repr

/-- A command line that can be carried out. -/
structure Invocation where
  task : Task
  files : List String
  json : Bool := false
  verbose : Bool := false
  config : Option String := none
  deriving DecidableEq, Repr

/-! ### Values -/

/-- A pair that is written `key=value`; the key must not be empty. -/
def keyValue? (s : String) : Option (String × String) :=
  let key := s.toList.takeWhile (· ≠ '=')
  match s.toList.dropWhile (· ≠ '=') with
  | [] => none
  | _ :: value => if key.isEmpty then none else some (String.ofList key, String.ofList value)

/-- The wording for a text that is no such pair. -/
def keyValueMessage (s : String) : String := "Invalid key=value pair: " ++ s

private def digitsValue? (cs : List Char) : Option Nat :=
  if cs.isEmpty || !cs.all Char.isDigit then none
  else some (cs.foldl (fun n c => n * 10 + (c.toNat - '0'.toNat)) 0)

/-- An unsigned number of 64 bits in decimal digits, maybe behind a plus sign. -/
def number? (s : String) : Option UInt64 :=
  let digits := match s.toList with
    | '+' :: r => r
    | cs => cs
  (digitsValue? digits).bind fun n => if n < UInt64.size then some (UInt64.ofNat n) else none

/-! ### Levels -/

private def any : String → Option UsageError := fun _ => none

private def nonEmpty (s : String) : Option UsageError := if s = "" then some .emptyValue else none

private def fits {α : Type} (read : String → Option α) (s : String) : Option UsageError :=
  if (read s).isSome then none else some .badValue

/-- The options that may stand anywhere. -/
def everywhere : List OptionSpec :=
  [ { long := "help", short := some 'h', kind := .help },
    { long := "verbose", short := some 'v', kind := .flag },
    { long := "config", short := some 'c', kind := .value false nonEmpty } ]

/-- The commands that work on files. -/
def commandNames : List String := ["validate", "graph", "resolve", "run"]

/-- The command that shows help. -/
def helpCommand : String := "help"

/-- The program itself. -/
def program : Level :=
  { options := everywhere ++ [{ long := "version", short := some 'V', kind := .version }]
    commands := commandNames ++ [helpCommand] }

/-- The options that a command has besides those that may stand anywhere. -/
def ownOptions (command : String) : List OptionSpec :=
  { long := "json", kind := .flag } ::
    if command = "resolve" then [{ long := "step", short := some 's', kind := .value false any }]
    else if command = "run" then
      [ { long := "var", kind := .value true (fits keyValue?) },
        { long := "max-parallel", kind := .value false (fits number?) } ]
    else []

/-- A command. -/
def commandLevel (command : String) : Level :=
  { options := everywhere ++ ownOptions command, hasWords := true }

/-! ### Reading a command line -/

/-- What a command is asked to do, if all that it needs is given. -/
def task (command : String) (t : Taken) : Except UsageError Task :=
  if t.words.isEmpty then .error .missingArgument
  else if command = "validate" then .ok .validate
  else if command = "graph" then .ok .graph
  else if command = "resolve" then
    match t.values "step" with
    | step :: _ => .ok (.resolve step)
    | [] => .error .missingArgument
  else
    .ok (.run ((t.values "var").filterMap keyValue?) ((t.values "max-parallel").head?.bind number?))

/-- The help command names at most one command to be explained. -/
def helpOn : List String → UsageError
  | [] => .showHelp
  | [command] => if program.commands.contains command then .showHelp else .unknownCommand
  | _ => .unknownCommand

/-- Reads a command line, without the name of the program. -/
def parse (args : List String) : Except UsageError Invocation := do
  let (outer, command) ← program.takeAll {} args
  match command with
  | none =>
    let outer ← outer.flush
    throw (if outer.options.isEmpty then .nothingGiven else .missingCommand)
  | some (name, rest) =>
    if name = helpCommand then throw (helpOn rest)
    let (inner, _) ← (commandLevel name).takeAll {} rest
    let inner ← inner.flush
    let task ← task name inner
    let outer ← outer.flush
    return {
      task
      files := inner.words
      json := inner.has "json"
      verbose := inner.has "verbose" || outer.has "verbose"
      config := (inner.values "config").head?.orElse fun _ => (outer.values "config").head? }

end StepFlow.CommandLine
