/-!
Options and words on a command line. The arguments of one level (the program itself, or one of its
commands) are taken one by one. A value may be attached to its option or follow as the next
argument; an option that still waits for its value and the words that stand together are kept
pending, and are judged when the next option comes or the level ends.
-/

namespace StepFlow.CommandLine

/-- Why a command line is not carried out. The first two are what the user asked for. -/
inductive UsageError where
  | showHelp
  | showVersion
  /-- There are no arguments at all. -/
  | nothingGiven
  | missingCommand
  | missingArgument
  /-- A value is missing, or is empty where it must not be. -/
  | emptyValue
  /-- A value does not have the right form. -/
  | badValue
  /-- A value is attached to an option that takes none. -/
  | unexpectedValue
  /-- An option that may be given once is given twice. -/
  | repeated
  | unknownArgument
  | unknownCommand
  deriving DecidableEq, Repr

/-- What an option does. -/
inductive OptionKind where
  | help
  | version
  | flag
  /-- It takes a value, which is checked, and may be given several times if it `repeats`. -/
  | value (repeats : Bool) (check : String → Option UsageError)

/-- An option. -/
structure OptionSpec where
  long : String
  short : Option Char := none
  kind : OptionKind

/-- The option takes a value. -/
def OptionSpec.takesValue (o : OptionSpec) : Bool :=
  match o.kind with
  | .value .. => true
  | _ => false

/-- What can be given on one level. -/
structure Level where
  options : List OptionSpec
  /-- The commands, each of which begins a level of its own. -/
  commands : List String := []
  /-- Arguments that are neither options nor commands are taken as words. -/
  hasWords : Bool := false

/-- What was taken last and is not judged yet. -/
inductive Pending where
  | nothing
  | waiting (o : OptionSpec)
  | valued (o : OptionSpec) (v : String)
  | words (ws : List String)

/-- What was taken on a level so far: the options with their values, in their order, and the
words. -/
structure Taken where
  options : List (String × String) := []
  words : List String := []
  pending : Pending := .nothing

namespace Taken

/-- The values of an option. -/
def values (t : Taken) (name : String) : List String :=
  (t.options.filter fun o => o.1 = name).map (·.2)

/-- The option was given. -/
def has (t : Taken) (name : String) : Bool := t.options.any fun o => o.1 = name

/-- Notes an option with its value. -/
def note (t : Taken) (o : OptionSpec) (v : String) : Taken :=
  { t with options := t.options ++ [(o.long, v)] }

/-- Accepts an option. -/
def accept (t : Taken) (o : OptionSpec) (v : String) : Except UsageError Taken :=
  match o.kind with
  | .help => .error .showHelp
  | .version => .error .showVersion
  | .flag => if t.has o.long then .error .repeated else .ok (t.note o v)
  | .value repeats check =>
    if !repeats && t.has o.long then .error .repeated
    else
      match check v with
      | some e => .error e
      | none => .ok (t.note o v)

/-- Judges what is pending. -/
def flush (t : Taken) : Except UsageError Taken :=
  let settled := { t with pending := .nothing }
  match t.pending with
  | .nothing => .ok t
  | .waiting _ => .error .emptyValue
  | .valued o v => settled.accept o v
  | .words ws =>
    if ws.contains "" then .error .emptyValue else .ok { settled with words := t.words ++ ws }

/-- Takes an option that has its value with it, or needs none. -/
def take (t : Taken) (o : OptionSpec) (v : String) : Except UsageError Taken :=
  match t.flush with
  | .error e => .error e
  | .ok t => t.accept o v

/-- Takes an option whose value has to follow. -/
def leaveOpen (t : Taken) (o : OptionSpec) : Except UsageError Taken :=
  match t.flush with
  | .error e => .error e
  | .ok t => .ok { t with pending := .waiting o }

/-- Takes a word. -/
def addWord (t : Taken) (w : String) : Except UsageError Taken :=
  match t.pending with
  | .words ws => .ok { t with pending := .words (ws ++ [w]) }
  | _ =>
    match t.flush with
    | .error e => .error e
    | .ok t => .ok { t with pending := .words [w] }

end Taken

/-! ### The forms of an argument -/

/-- The form of an argument: `--name`, `--name=value`, `-abc`, or anything else. -/
inductive Argument where
  | long (name : String) (value : Option String)
  | short (letters : List Char)
  | word

/-- The form of an argument. -/
def Argument.ofChars : List Char → Argument
  | '-' :: '-' :: r =>
    let name := String.ofList (r.takeWhile (· ≠ '='))
    match r.dropWhile (· ≠ '=') with
    | [] => .long name none
    | _ :: v => .long name (some (String.ofList v))
  | '-' :: c :: r => .short (c :: r)
  | _ => .word

namespace Level

/-- Takes a long option. -/
def takeLong (l : Level) (t : Taken) (name : String) (value : Option String) :
    Except UsageError Taken :=
  match l.options.find? fun o => o.long = name with
  | none => .error .unknownArgument
  | some o =>
    match value with
    | some v => if o.takesValue then t.take o v else .error .unexpectedValue
    | none => if o.takesValue then t.leaveOpen o else t.take o ""

/-- Takes options of one letter each. What follows the letter of an option with a value is that
value; an equals sign between them does not count. -/
def takeLetters (l : Level) (t : Taken) : List Char → Except UsageError Taken
  | [] => .ok t
  | c :: r =>
    match l.options.find? fun o => o.short = some c with
    | none => .error .unknownArgument
    | some o =>
      if o.takesValue then
        match r with
        | [] => t.leaveOpen o
        | '=' :: v => t.take o (String.ofList v)
        | v => t.take o (String.ofList v)
      else
        match t.take o "" with
        | .error e => .error e
        | .ok t => takeLetters l t r

/-- Takes an argument that is no option. Behind a double dash a command is out of place. -/
def takeWord (l : Level) (t : Taken) (w : String) (behindDashes : Bool) :
    Except UsageError Taken :=
  if l.hasWords then t.addWord w
  else if behindDashes && l.commands.contains w then .error .unknownArgument
  else .error .unknownCommand

/-- Takes an argument. -/
def takeArgument (l : Level) (t : Taken) (a : String) : Except UsageError Taken :=
  match Argument.ofChars a.toList, t.pending with
  | .long name value, _ => l.takeLong t name value
  | .short letters, _ => l.takeLetters t letters
  | .word, .waiting o => .ok { t with pending := .valued o a }
  | .word, _ => l.takeWord t a false

/-- An option waits for its value. -/
def waits (t : Taken) : Bool :=
  match t.pending with
  | .waiting _ => true
  | _ => false

/-- Takes the arguments behind a double dash, all of them as words. -/
def takeWords (l : Level) (t : Taken) : List String → Except UsageError Taken
  | [] => .ok t
  | w :: rest =>
    match l.takeWord t w true with
    | .error e => .error e
    | .ok t => takeWords l t rest

/-- Takes arguments up to a command, which is returned with the arguments behind it. -/
def takeAll (l : Level) (t : Taken) :
    List String → Except UsageError (Taken × Option (String × List String))
  | [] => .ok (t, none)
  | a :: rest =>
    if !waits t && l.commands.contains a then .ok (t, some (a, rest))
    else if a = "--" then (l.takeWords t rest).map fun t => (t, none)
    else
      match l.takeArgument t a with
      | .error e => .error e
      | .ok t => takeAll l t rest

end Level

end StepFlow.CommandLine
