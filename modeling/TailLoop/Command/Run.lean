import TailLoop.Command.Arguments
import TailLoop.Contract.Check
import TailLoop.Core.Outline
import TailLoop.Project

/-!
# Running commands

A command line is refused before it does anything if a path it names is not of
the kind it needs.  Otherwise it runs and prints as it goes, until it is done or
ends early.
-/

namespace TailLoop.Command

open Project (Action)

variable {m : Type → Type} [Monad m] [Host m]

def say (channel : Channel) (text : Text) : Action m Unit :=
  (Host.say channel text : m Unit)

def sayLine (channel : Channel) (line : Text) : Action m Unit :=
  say channel (line ++ "\n")

def report (colored : Bool) (diagnostics : List Diagnostic) : Action m Unit :=
  diagnostics.forM fun diagnostic => sayLine .errors (diagnostic.render colored)

/-- Tells the user what is wrong and ends the command. -/
def stopWith {α : Type} (message : Text) : Action m α := do
  sayLine .errors ("error: " ++ message)
  throw .reported

/-- The program in a file; if it cannot be loaded, the user is told and the
command ends. -/
def loadReported (colored : Bool) (path : Path) : Action m Program := do
  match ← Project.loadProgram path with
  | .ok program => return program
  | .error diagnostic =>
      report colored [diagnostic]
      throw .reported

/-- The text of the program in a file. -/
def compileReported (colored : Bool) (options : ScriptOptions) (path : Path) :
    Action m Text := do
  let program ← loadReported colored path
  let compiled ← Project.compileProgram options program
  report colored compiled.diagnostics
  match compiled.text? with
  | some text => return text
  | none => throw .reported

/-- Where the result goes if nothing else is said: next to the program, under
its name without the ending of program files. -/
def standardOutput (file : Path) : Path :=
  let name := file.name
  let stem := ((Text.before? ".ir.json" name).orElse fun _ =>
    Text.before? ".json" name).getD name
  file.withName (stem ++ ".py")

def compile (file : Text) (output : Option Text) (options : ScriptOptions)
    (colored : Bool) :
    Action m Unit := do
  let text ← compileReported colored options (Path.ofText file)
  let target :=
    match output with
    | none => standardOutput (Path.ofText file)
    | some [] => standardOutput (Path.ofText file)
    | some output => Path.ofText output
  Project.deliver target text
  sayLine .output ("compiled " ++ file ++ " -> " ++ target.text)

/-- The directory and the settings of the project that a path belongs to. -/
def projectOf (path : Text) : Action m (Path × Settings) := do
  match ← Project.findSettings (Path.ofText path) with
  | none => stopWith ("no " ++ Project.settingsFile ++ " found")
  | some file => return (file.parent, ← Project.loadSettings file)

/-- The name of a project as it is shown. -/
def nameOf (settings : Settings) : Action m Text :=
  match settings.shownName? with
  | some name => return name
  | none => throw .longNumber

def missingSource {α : Type} (path : Path) : Action m α :=
  stopWith ("IR file not found: " ++ path.text)

/-- Builds a project and returns the file it wrote. -/
def build (path : Text) (colored : Bool) : Action m Path := do
  let (directory, settings) ← projectOf path
  let name ← nameOf settings
  sayLine .output ("building " ++ name ++ "...")
  match ← Project.build directory settings with
  | .missingSource source => missingSource source
  | .refused diagnostics =>
      report colored diagnostics
      throw .reported
  | .built output diagnostics =>
      report colored diagnostics
      sayLine .output ("built " ++ name ++ " -> " ++ output.text)
      return output

def check (path : Text) (colored : Bool) : Action m Unit := do
  let (directory, settings) ← projectOf path
  let name ← nameOf settings
  sayLine .output ("checking " ++ name ++ "...")
  let source ← Project.pathIn directory settings.source
  if (← Project.kindOf source) != some .file then missingSource source
  let program ← loadReported colored source
  let checker := Contract.Checker.initial.check program
  report colored checker.diagnostics
  if checker.hasErrors then throw .reported
  sayLine .output ("checked " ++ name ++ ": no errors")

def new (name : Text) : Action m Unit := do
  let working ← (Host.working : m Path)
  match ← Project.scaffold working name with
  | .created directory =>
      sayLine .output ("created project '" ++ name ++ "' at " ++ directory.text)
  | .refused message => stopWith message

def versionLine : Text := "pylower, version 0.1.0"

/-- The kind of what a word names.  A word that ends like a directory names
nothing else. -/
def kindOfWord (word : Text) : Action m (Option FileKind) := do
  let path := Path.ofText word
  if !path.isLegal then throw (.file ⟨.badName, path⟩)
  let kind := match ← (Host.kind? path : m _) with
    | .ok kind => kind
    | .error _ => none
  let asDirectory := (Text.before? "/" word).isSome ||
    (Text.before? "/." word).isSome
  if word.isEmpty || (asDirectory && kind == some .file) then return none
  return kind

/-- Looks at what a command needs, up to the first word that names something
else. -/
def meets : List (Need × Text) → Action m Bool
  | [] => return true
  | (need, word) :: needs => do
      if need.allows (← kindOfWord word) then meets needs else return false

/-- Carries out a request.  Running a project gives the program that is to be
executed. -/
def perform : Request → Action m (Option Path)
  | .version => do
      sayLine .output versionLine
      return none
  | .build path plain => do
      let _ ← build path (!plain)
      return none
  | .check path plain => do
      check path (!plain)
      return none
  | .run path plain => return some (← build path (!plain))
  | .compile file output options plain => do
      compile file output options (!plain)
      return none
  | .display file options plain => do
      say .output (← compileReported (!plain) options (Path.ofText file))
      return none
  | .view file => do
      let program ← loadReported true (Path.ofText file)
      say .output program.outline.text
      return none
  | .new name => do
      new name
      return none

/-- How a command line ended. -/
inductive Ending where
  | misused
  | stopped (cause : Stop)
  | done
  /-- A program was built and is to be executed. -/
  | execute (program : Path)

def Ending.exitCode : Ending → Nat
  | .misused => 2
  | .stopped _ => 1
  | .done => 0
  | .execute _ => 0

def Ending.ofProgram? : Option Path → Ending
  | none => .done
  | some program => .execute program

/-- Carries out a command line that was understood. -/
def obey (invocation : Invocation) : Action m Ending := do
  if ← meets invocation.needs then
    match invocation.request with
    | none => return .misused
    | some request => return .ofProgram? (← perform request)
  else return .misused

def run (words : List Text) : m Ending := do
  match Invocation.ofWords words with
  | none => return .misused
  | some invocation =>
      match ← ExceptT.run (obey invocation) with
      | .error cause => return .stopped cause
      | .ok ending => return ending

end TailLoop.Command
