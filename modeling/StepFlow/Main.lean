import Std.Time.DateTime.Timestamp
import StepFlow.Session
import StepFlow.Timestamp

/-!
The command line program: it reads the files that its arguments name, and prints what the session
comes to.
-/

namespace StepFlow.Main

/-- The wording for a file that cannot be read. -/
def cause : IO.Error → String
  | .noFileOrDirectory .. => "No such file or directory (os error 2)"
  | .permissionDenied .. => "Permission denied (os error 13)"
  | e => toString e

/-- The text of a file, or why it cannot be read. -/
def readText (path : String) : IO (Except String String) := do
  try
    let bytes ← IO.FS.readBinFile path
    match String.fromUTF8? bytes with
    | some text => return .ok text
    | none => return .error "stream did not contain valid UTF-8"
  catch e => return .error (cause e)

/-- The files that a command line names. -/
def named (args : List String) : List String :=
  match CommandLine.parse args with
  | .ok i => i.config.toList ++ i.files
  | .error _ => []

private def hex (b : UInt8) : String :=
  String.ofList [Nat.digitChar (b.toNat / 16), Nat.digitChar (b.toNat % 16)]

/-- Sixteen bytes as an id; six bits tell that they are random. -/
def idOfBytes (bytes : List UInt8) : String :=
  let marked := bytes.mapIdx fun i b =>
    if i = 6 then b % 16 + 0x40 else if i = 8 then b % 64 + 0x80 else b
  String.join (marked.mapIdx fun i b =>
    (if i ∈ [4, 6, 8, 10] then "-" else "") ++ hex b)

/-- The world as it is now. -/
def world (args : List String) : IO Session.World := do
  let files ← (named args).mapM fun path => return (path, ← readText path)
  let now ← Std.Time.Timestamp.now
  let bytes ← IO.getRandomBytes 16
  return {
    file := fun path => (files.lookup path).getD (.error "")
    now := now.toMillisecondsSinceUnixEpoch.val
    time := Timestamp.text
    jobId := idOfBytes bytes.toList
    colors := ← (← IO.getStdout).isTty }

end StepFlow.Main

/-- Carries out the command line. -/
def main (args : List String) : IO UInt32 := do
  let ended := StepFlow.Session.ofArgs (← StepFlow.Main.world args) args
  for notice in ended.notices do
    IO.eprintln notice
  IO.print ended.stdout
  if let some error := ended.error then IO.eprint error
  return UInt32.ofNat ended.code
