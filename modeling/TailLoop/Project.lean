import TailLoop.Compile
import TailLoop.File.Host
import TailLoop.Settings
import TailLoop.Text.Newline

/-!
# Projects

A project is a directory with a settings file.  Building it reads the program
that the settings name, compiles it, and writes the result.
-/

namespace TailLoop

/-- What ends an operation early.  A reported end has already told the user
why. -/
inductive Stop where
  | reported
  | settings (fault : Settings.Fault)
  | notPath
  | longNumber
  | file (failure : FileFailure)
  | load (fault : LoadFault)
  | lowering (failure : Lowering.Failure)

/-- What is said about an early end that was not reported. -/
def Stop.message? : Stop → Option Text
  | .reported => none
  | .settings fault => some fault.message
  | .notPath => some "a path in the settings is not a text"
  | .longNumber => some (Lowering.Fault.message .digitLimit)
  | .file failure => some (failure.fault.message ++ ": " ++ failure.path.text)
  | .load fault => some fault.message
  | .lowering failure => some failure.fault.message

namespace Project

variable {m : Type → Type} [Monad m] [Host m]

/-- An operation of a host that may end early. -/
abbrev Action (m : Type → Type) := ExceptT Stop m

def onFile {α : Type} (path : Path) (operation : m (Except FileFault α)) :
    Action m α := do
  match ← (operation : m _) with
  | .ok value => return value
  | .error fault => throw (.file ⟨fault, path⟩)

def readFile (path : Path) : Action m Text :=
  onFile path (Host.read path)

def writeFile (path : Path) (text : Text) : Action m Unit :=
  onFile path (Host.write path text)

def kindOf (path : Path) : Action m (Option FileKind) :=
  onFile path (Host.kind? path)

def makeDirectories (existing : Bool) (path : Path) : Action m Unit := do
  match ← (Host.makeDirectories existing path : m _) with
  | .ok () => return ()
  | .error failure => throw (.file failure)

/-- Writes a file after the directories above it. -/
def deliver (path : Path) (text : Text) : Action m Unit := do
  makeDirectories true path.parent
  writeFile path text

/-- The path a settings value names from a directory. -/
def pathIn (directory : Path) : Json → Action m Path
  | .str text => return directory.join (Path.ofText text)
  | _ => throw .notPath

/-- The program in a file, or what is wrong with it. -/
def loadProgram (path : Path) : Action m (Except Diagnostic Program) := do
  let text ← readFile path
  match Program.load text.unifyNewlines with
  | .ok program => return .ok program
  | .error fault =>
      match fault.diagnostic? path.text with
      | some diagnostic => return .error diagnostic
      | none => throw (.load fault)

def compileProgram (options : ScriptOptions) (program : Program) :
    Action m Compiled :=
  match program.compile options with
  | .ok compiled => return compiled
  | .error failure => throw (.lowering failure)

def settingsFile : Text := "pylower.toml"

/-- The nearest settings file in a directory or above it.  The names of the
directory are given from the last one on. -/
def searchUpward : List Text → Action m (Option Path)
  | [] => do
      let candidate := Path.absolute [settingsFile]
      if (← kindOf candidate).isSome then return some candidate
      return none
  | name :: above => do
      let candidate := Path.absolute (settingsFile :: name :: above).reverse
      if (← kindOf candidate).isSome then return some candidate
      searchUpward above

/-- The settings file that governs a file or a directory. -/
def findSettings (start : Path) : Action m (Option Path) := do
  let working ← (Host.working : m Path)
  if !start.isLegal then throw (.file ⟨.badName, start⟩)
  let path := Path.resolve working start
  if (← kindOf path) = some .file then searchUpward path.parent.names.reverse
  else searchUpward path.names.reverse

def notFoundMessage : Text :=
  "No " ++ settingsFile ++ " found in any parent directory"

def loadSettings (path : Path) : Action m Settings := do
  match Settings.read (← readFile path) with
  | .ok settings => return settings
  | .error fault => throw (.settings fault)

inductive BuildResult where
  | built (output : Path) (diagnostics : List Diagnostic)
  | missingSource (path : Path)
  | refused (diagnostics : List Diagnostic)

/-- Reads, compiles and writes the program of a project. -/
def build (directory : Path) (settings : Settings) : Action m BuildResult := do
  let source ← pathIn directory settings.source
  if (← kindOf source) != some .file then return .missingSource source
  match ← loadProgram source with
  | .error diagnostic => return .refused [diagnostic]
  | .ok program =>
      let compiled ← compileProgram settings.options program
      match compiled.text? with
      | none => return .refused compiled.diagnostics
      | some text =>
          let output ← pathIn directory settings.output
          deliver output text
          return .built output compiled.diagnostics

def unlines (lines : List String) : Text :=
  lines.flatMap fun line => Text.ofString line ++ "\n"

def settingsText (name : Text) : Text :=
  unlines ["[package]"] ++ "name = \"" ++ name ++ "\"\n" ++
    unlines ["version = \"0.1.0\"", "", "[build]",
      "source = \"program.ir.json\""] ++
    "output = \"build/" ++ name ++ ".py\"\n" ++
    unlines ["jobs = 1", "", "[codegen]", "trace = false", "comments = true"]

/-- A program that greets. -/
def programText : Text :=
  unlines [
    "\x7b",
    "  \"entry\": \x7b\"mn\": [0, \"runMain\"]\x7d,",
    "  \"declarations\": [",
    "    \x7b",
    "      \"kind\": \"function\",",
    "      \"name\": \x7b\"mn\": [0, \"runMain\"]\x7d,",
    "      \"params\": [],",
    "      \"body\": \x7b",
    "        \"kind\": \"op\",",
    "        \"op\": \"write_str\",",
    "        \"args\": [",
    "          \x7b\"kind\": \"const\", " ++
      "\"value\": \x7b\"kind\": \"string\", " ++
      "\"value\": \"Hello from pylower!\\n\"\x7d\x7d",
    "        ]",
    "      \x7d",
    "    \x7d",
    "  ]",
    "\x7d"]

def ignoreText : Text :=
  unlines ["build/", "__pycache__/"]

def readmeText (name : Text) : Text :=
  "# " ++ name ++ "\n" ++
    unlines ["", "An IR program compiled to Python with pylower.", "",
      "## Build", "", "```bash", "pylower build", "```", "", "## Run", "",
      "```bash", "pylower run", "```"]

/-- The files of a new project and their texts. -/
def template (name : Text) : List (Text × Text) :=
  [(settingsFile, settingsText name), ("program.ir.json", programText),
    (".gitignore", ignoreText), ("README.md", readmeText name)]

def takenMessage (name : Text) : Text :=
  "Directory '" ++ name ++ "' already exists"

/-- What is said of a path that exists and should not. -/
def existsMessage (path : Path) : Text :=
  "[Errno 17] File exists: " ++ Text.quoted path.text

inductive Scaffold where
  | created (directory : Path)
  | refused (message : Text)

/-- Makes the directory of a new project and its files. -/
def scaffold (base : Path) (name : Text) : Action m Scaffold := do
  let directory := base.join (Path.ofText name)
  if (← kindOf directory).isSome then return .refused (takenMessage name)
  match ← (Host.makeDirectories false directory : m _) with
  | .error ⟨.taken, path⟩ => return .refused (existsMessage path)
  | .error failure => throw (.file failure)
  | .ok () =>
      for (file, text) in template name do
        writeFile (directory.child file) text
      return .created directory

end Project

end TailLoop
