import TailLoop.Code.Draft
import TailLoop.Lowering.Expr
import TailLoop.Prelude.Basic

/-!
# Scripts

The text of a program: the prelude, its functions in the order of their
declarations, and the call of the entry point.  Each function is a loop that a
restart enters again.
-/

namespace TailLoop

/-- What the text of a program shows besides its code. -/
structure ScriptOptions where
  /-- Functions print their calls. -/
  trace : Bool
  /-- Names are shown in comments. -/
  comments : Bool
deriving DecidableEq

def ScriptOptions.standard : ScriptOptions := ⟨false, true⟩

namespace Lowering

def Fault.message : Fault → Text
  | .breach cause => cause.message
  | .digitLimit =>
      "Exceeds the limit (" ++ Text.ofNat indexLimit ++
        " digits) for integer string conversion; " ++
        "use sys.set_int_max_str_digits() to increase the limit"
  | .notConstructors => "decision trees only dispatch on constructors"
  | .noClauses => "list index out of range"

/-- The report on a function that breaks the contract. -/
def Fault.diagnostic? (function : Name) : Fault → Option Diagnostic
  | .breach cause => some (cause.refusal function.text)
  | _ => none

/-- A function that could not be lowered. -/
structure Failure where
  function : Name
  fault : Fault

end Lowering

namespace Code.Block

/-- The lines of the statements. -/
def statementLines (layout : Layout) (block : Block) : List Text :=
  Stmt.linesList layout block.statements

/-- The statements and the return of the value, if there is one. -/
def bodyLines (layout : Layout) (block : Block) : List Text :=
  let result :=
    if block.value.isRestart then [] else
      ["return " ++ block.value.text layout.restart]
  block.statementLines layout ++ result

end Code.Block

namespace Function

open Code

/-- Prints the name of the function and its arguments. -/
def traceLine (function : Function) : Text :=
  let params := function.params.map Name.identifier
  let pattern := callText function.name.identifier (params.map fun _ => "%s")
  let shown : Text :=
    if params.isEmpty then []
    else " % " ++ tupleText (params.map fun param => callText "repr" [param])
  "print(" ++ Text.quoted pattern ++ shown ++ ", file=sys.stderr)"

def header (function : Function) : Text :=
  "def " ++ callText function.name.identifier
    (function.params.map Name.identifier) ++ ":"

/-- The lines of a function around the lines of its body. -/
def frame (options : ScriptOptions) (function : Function) (body : List Text) :
    List Text :=
  let title := if options.comments then ["# " ++ function.name.display] else []
  let trace := if options.trace then [function.traceLine] else []
  let draft := (Draft.empty.emitAll title).emit function.header
  let (_, draft) := draft.within fun draft =>
    (draft.emit "while True:").within fun draft =>
      ((), draft.emitAll (trace ++ body))
  draft.lines

def layout (options : ScriptOptions) : Layout :=
  Layout.standard options.comments

/-- The lines of a function. -/
def lines (options : ScriptOptions) (tags : TagTable) (function : Function) :
    Except Lowering.Fault (List Text) :=
  (function.lower tags).map fun block =>
    function.frame options (block.bodyLines (layout options))

def text (options : ScriptOptions) (tags : TagTable) (function : Function) :
    Except Lowering.Fault Text :=
  (function.lines options tags).map fun lines => Text.join "\n" lines ++ "\n"

/-- The texts of functions, up to the first that cannot be lowered. -/
def texts (options : ScriptOptions) (tags : TagTable) :
    List Function → Except Lowering.Failure (List Text)
  | [] => .ok []
  | function :: functions =>
      match function.text options tags with
      | .error fault => .error ⟨function.name, fault⟩
      | .ok first => (texts options tags functions).map (first :: ·)

end Function

/-- The text of a whole program. -/
def Program.script (options : ScriptOptions) (tags : TagTable)
    (program : Program) :
    Except Lowering.Failure Text :=
  (Function.texts options tags program.functions).map fun definitions =>
    Text.join "\n" (Prelude.text :: definitions ++
      [Prelude.launcher program.entry.identifier])

end TailLoop
