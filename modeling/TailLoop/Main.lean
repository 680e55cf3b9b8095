import TailLoop.Command.Run

/-!
# The command line

Runs a command on the files of the system.  Executing a program that was built
is left to the user.
-/

namespace TailLoop

/-- The fault that a failed file operation stands for, if it is one of the
expected ones. -/
def FileFault.ofError? (kind : Option FileKind) : IO.Error → Option FileFault
  | .noFileOrDirectory .. => some .missing
  | .alreadyExists .. => some .taken
  | .inappropriateType .. =>
      if kind = some .directory then some .isDirectory else some .notDirectory
  | .invalidArgument .. => some .tooLong
  | _ => none

def systemKind (path : Path) : IO (Except FileFault (Option FileKind)) := do
  if !path.isLegal then return .ok none
  try
    let found ← ((← IO.currentDir) / path.text.toString).metadata
    if found.type matches .dir then return .ok (some .directory)
    return .ok (some .file)
  catch error =>
    match FileFault.ofError? none error with
    | some .tooLong => return .error .tooLong
    | _ => return .ok none

/-- Runs a file operation and catches its expected faults. -/
def attempt {α : Type} (path : Path) (operation : IO α) :
    IO (Except FileFault α) := do
  if !path.isLegal then return .error .badName
  try
    return .ok (← operation)
  catch error =>
    let kind := (← systemKind path).toOption.join
    match FileFault.ofError? kind error with
    | some fault => return .error fault
    | none => throw error

def streamOf : Channel → IO IO.FS.Stream
  | .output => IO.getStdout
  | .errors => IO.getStderr

instance : Host IO where
  working := do return Path.ofText (Text.ofString (← IO.currentDir).toString)
  kind? := systemKind
  read path := attempt path do
    return Text.ofString (← IO.FS.readFile path.text.toString)
  write path text :=
    attempt path (IO.FS.writeFile path.text.toString text.toString)
  makeDirectory path := attempt path (IO.FS.createDir path.text.toString)
  styled channel := do (← streamOf channel).isTty
  print channel text := do
    let stream ← streamOf channel
    stream.putStr text.toString
    stream.flush

def usage : Text :=
  "usage: pylower [--version] build|check|run|compile|show|view|new ..."

/-- What is left to say after a command ended. -/
def Command.Ending.remark? : Command.Ending → Option Text
  | .misused => some usage
  | .stopped cause => cause.message?.map fun message => "error: " ++ message
  | .done => none
  | .execute program => some ("ready to be executed: " ++ program.text)

end TailLoop

open TailLoop

def main (words : List String) : IO UInt32 := do
  let ending ← (Command.run (words.map Text.ofString) : IO Command.Ending)
  match ending.remark? with
  | some remark => Host.sayLine .errors remark
  | none => pure ()
  return ending.exitCode.toUInt32
