import TailLoop.File.Tree
import TailLoop.Script

/-!
# Command lines

A command takes flags, options with a value, and operands, in any order.  Two
hyphens on their own end the options; a single hyphen is an operand.
-/

namespace TailLoop.Command

def isOption (word : Text) : Bool :=
  decide (word.head? = some (CodePoint.ofChar '-')) && decide (1 < word.length)

def endOfOptions : Text := "--"

/-- The spellings a command knows: its flags, its options with a value, and
their one-letter forms. -/
structure Grammar where
  flags : List Text
  long : List Text
  short : List CodePoint

structure Parsed where
  flags : List Text
  /-- The values of the options with one, the last first. -/
  values : List Text
  operands : List Text

namespace Parsed

def empty : Parsed := ⟨[], [], []⟩

def flag (parsed : Parsed) (name : Text) : Bool := parsed.flags.contains name

end Parsed

/-- The part before the first equals sign, and the one after it. -/
def splitValue (word : Text) : Text × Option Text :=
  let isPlain := fun c : CodePoint => c != '='
  let name := word.takeWhile isPlain
  match word.dropWhile isPlain with
  | [] => (name, none)
  | _ :: value => (name, some value)

/-- How a word that looks like an option is understood. -/
inductive Meaning where
  | flag (name : Text)
  | value (text : Text)
  | valueFollows
  | unknown

/-- A long option may carry its value after an equals sign, a one-letter option
right after the letter. -/
def Grammar.meaning (grammar : Grammar) (word : Text) : Meaning :=
  let (name, attached) := splitValue word
  if grammar.flags.contains name then
    if attached.isNone then .flag name else .unknown
  else if grammar.long.contains name then
    match attached with
    | some text => .value text
    | none => .valueFollows
  else
    match word with
    | _ :: letter :: text =>
        if grammar.short.contains letter then
          if text.isEmpty then .valueFollows else .value text
        else .unknown
    | _ => .unknown

/-- Reads the words of a command after those already read; `none` if one is not
understood or a value is missing. -/
def Grammar.parse (grammar : Grammar) (parsed : Parsed) :
    List Text → Option Parsed
  | [] => some { parsed with operands := parsed.operands.reverse }
  | word :: words =>
      if word = endOfOptions then
        some { parsed with operands := parsed.operands.reverse ++ words }
      else if isOption word then
        match grammar.meaning word with
        | .flag name =>
            grammar.parse { parsed with flags := name :: parsed.flags } words
        | .value text =>
            grammar.parse { parsed with values := text :: parsed.values } words
        | .valueFollows =>
            match words with
            | [] => none
            | text :: words =>
                grammar.parse { parsed with values := text :: parsed.values }
                  words
        | .unknown => none
      else
        grammar.parse { parsed with operands := word :: parsed.operands } words

/-- What the user asks for.  `plain` asks for output without styles. -/
inductive Request where
  | version
  | build (path : Text) (plain : Bool)
  | check (path : Text) (plain : Bool)
  | run (path : Text) (plain : Bool)
  | compile (file : Text) (output : Option Text) (options : ScriptOptions)
      (plain : Bool)
  | display (file : Text) (options : ScriptOptions) (plain : Bool)
  | view (file : Text)
  | new (name : Text)

/-- What a word has to name before a command starts. -/
inductive Need where
  | existing
  | existingFile
  | notDirectory

def Need.allows : Need → Option FileKind → Bool
  | .existing, kind => kind.isSome
  | .existingFile, kind => kind == some .file
  | .notDirectory, kind => kind != some .directory

/-- A command line that was understood word by word: what is looked at first, in
order, and the request.  There is no request if an operand is missing or left
over. -/
structure Invocation where
  needs : List (Need × Text)
  request : Option Request

namespace Invocation

def plainFlag : Text := "--no-color"

def traceFlag : Text := "--trace"

def uncommentedFlag : Text := "--no-comments"

/-- A command on a project, which is the working directory unless a path is
given. -/
def ofProject (request : Text → Bool → Request) (words : List Text) :
    Option Invocation := do
  let grammar : Grammar := ⟨[plainFlag], [], []⟩
  let parsed ← grammar.parse .empty words
  let request := fun path => request path (parsed.flag plainFlag)
  match parsed.operands with
  | [] => some ⟨[(.existing, Path.here)], some (request Path.here)⟩
  | [path] => some ⟨[(.existing, path)], some (request path)⟩
  | path :: _ => some ⟨[(.existing, path)], none⟩

/-- A command on one operand.  The value of an option is looked at before it. -/
def ofOperand (grammar : Grammar) (needs : List Need)
    (request : Text → Parsed → Request) (words : List Text) :
    Option Invocation := do
  let parsed ← grammar.parse .empty words
  let values := parsed.values.head?.toList.map fun value =>
    (Need.notDirectory, value)
  let needsOf := fun operand => values ++ needs.map fun need => (need, operand)
  match parsed.operands with
  | [] => some ⟨values, none⟩
  | [operand] => some ⟨needsOf operand, some (request operand parsed)⟩
  | operand :: _ => some ⟨needsOf operand, none⟩

def compileOf (file : Text) (parsed : Parsed) : Request :=
  .compile file parsed.values.head?
    ⟨parsed.flag traceFlag, !parsed.flag uncommentedFlag⟩
    (parsed.flag plainFlag)

def displayOf (file : Text) (parsed : Parsed) : Request :=
  .display file ⟨parsed.flag traceFlag, true⟩ (parsed.flag plainFlag)

/-- The commands and how they read the words after their name. -/
def commands : List (Text × (List Text → Option Invocation)) :=
  [("build", ofProject .build),
    ("check", ofProject .check),
    ("run", ofProject .run),
    ("compile",
      ofOperand ⟨[traceFlag, uncommentedFlag, plainFlag], ["--output"], ['o']⟩
        [.existingFile] compileOf),
    ("show",
      ofOperand ⟨[traceFlag, plainFlag], [], []⟩ [.existingFile] displayOf),
    ("view", ofOperand ⟨[], [], []⟩ [.existingFile] fun file _ => .view file),
    ("new", ofOperand ⟨[], [], []⟩ [] fun name _ => .new name)]

def versionFlag : Text := "--version"

/-- Whether the words before a command ask for the version, and the words from
the command on; `none` if an option is unknown. -/
def leading (asked : Bool) : List Text → Option (Bool × List Text)
  | [] => some (asked, [])
  | word :: words =>
      if word = versionFlag then leading true words
      else if word = endOfOptions then some (asked, words)
      else if isOption word then none
      else some (asked, word :: words)

def version : Invocation := ⟨[], some .version⟩

/-- The words from a command on.  If there is no command of this name, they may
still be options that ask for the version. -/
def ofCommand : List Text → Option Invocation
  | [] => none
  | name :: words =>
      match commands.find? fun command => command.1 = name with
      | some (_, read) => read words
      | none =>
          match leading false (name :: words) with
          | some (true, _) => some version
          | _ => none

/-- A whole command line.  Asking for the version comes before any command. -/
def ofWords (words : List Text) : Option Invocation :=
  match leading false words with
  | none => none
  | some (true, _) => some version
  | some (false, words) => ofCommand words

end Invocation

end TailLoop.Command
