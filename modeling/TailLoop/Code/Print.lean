import TailLoop.Code.Basic
import TailLoop.Identifier
import TailLoop.Number.Decimal

/-!
# Printed code

Terms are printed on one line.  A statement may take several lines; the lines of
a suite are indented by one step.
-/

namespace TailLoop.Code

/-- What may vary in printed code: whether tests are commented with the names of
their constructors, and the text of a value that is never used. -/
structure Layout where
  comments : Bool
  restart : Text

/-- A call that fails with a message. -/
def raiseText (message : Text) : Text :=
  "rts_error(" ++ Text.quoted message ++ ")"

def restartText : Text :=
  raiseText "unreachable due to tail call"

def Layout.standard (comments : Bool) : Layout :=
  ⟨comments, restartText⟩

def BinaryOp.text : BinaryOp → Text
  | .add => "+"
  | .sub => "-"
  | .mul => "*"
  | .mod => "%"
  | .div => "/"
  | .floorDiv => "//"

def CompareOp.text : CompareOp → Text
  | .eq => "=="
  | .lt => "<"
  | .le => "<="
  | .gt => ">"
  | .ge => ">="

def UnaryOp.text (op : UnaryOp) (arg : Text) : Text :=
  match op with
  | .toStr => "str(" ++ arg ++ ")"
  | .toInt => "int(" ++ arg ++ ")"
  | .reversed => arg ++ "[::-1]"
  | .first => arg ++ "[0]"
  | .rest => arg ++ "[1:]"

/-- A finite number is its own literal; the others are converted from their
names. -/
def floatText (value : Double) : Text :=
  if value.isFinite then value.text else "float('" ++ value.text ++ "')"

def callText (callee : Text) (args : List Text) : Text :=
  callee ++ "(" ++ Text.join ", " args ++ ")"

/-- A tuple of one item keeps its comma. -/
def tupleText : List Text → Text
  | [item] => "(" ++ item ++ ",)"
  | items => "(" ++ Text.join ", " items ++ ")"

/-- A parameter whose default is the present value of the variable of the same
name. -/
def frozenText (v : Var) : Text :=
  v.identifier ++ "=" ++ v.identifier

def thunkText (frozen : List Var) (body : Text) : Text :=
  match frozen with
  | [] => "(lambda: " ++ body ++ ")"
  | frozen =>
      "(lambda " ++ Text.join ", " (frozen.map frozenText) ++
        ": " ++ body ++ ")"

def paramsText (params : List Name) (frozen : List Var) : Text :=
  Text.join ", " (params.map Name.identifier ++ frozen.map frozenText)

def lambdaText (param : Name) (frozen : List Var) (body : Text) : Text :=
  "(lambda " ++ paramsText [param] frozen ++ ": (" ++ body ++ "))"

def unsupportedText (prim : Prim) (args : List Text) : Text :=
  raiseText ("unimplemented prim: " ++ prim.text ++ ", args = [" ++
    Text.join ", " args ++ "]")

namespace Term

mutual

/-- The text of a term; `restart` stands for a value that is never used. -/
def text (restart : Text) : Term → Text
  | .var v => v.identifier
  | .int value => Text.ofInt value
  | .float value => floatText value
  | .str value => Text.quoted value
  | .none => "None"
  | .restart => restart
  | .raise message => raiseText message
  | .verbatim source => source
  | .paren body => "(" ++ text restart body ++ ")"
  | .call callee args => callText (text restart callee) (texts restart args)
  | .tuple items => tupleText (texts restart items)
  | .item body index => text restart body ++ "[" ++ Text.ofInt index ++ "]"
  | .binary op left right =>
      "(" ++ text restart left ++ " " ++ op.text ++ " " ++ text restart right ++
        ")"
  | .compare op left right =>
      "int(" ++ text restart left ++ " " ++ op.text ++ " " ++
        text restart right ++ ")"
  | .unary op arg => op.text (text restart arg)
  | .readLine => "sys.stdin.readline()"
  | .write arg => "sys.stdout.write(" ++ text restart arg ++ ")"
  | .unsupported prim args => unsupportedText prim (texts restart args)
  | .thunk frozen body => thunkText frozen (text restart body)
  | .lambda param frozen body => lambdaText param frozen (text restart body)

def texts (restart : Text) : List Term → List Text
  | [] => []
  | term :: terms => text restart term :: texts restart terms

end

end Term

def indentation : Text := "    "

/-- Lines one step further in. -/
def indented (lines : List Text) : List Text :=
  lines.map (indentation ++ ·)

/-- Names on the left of an assignment, each with its comma. -/
def targetsText (targets : List Name) : Text :=
  Text.join " " (targets.map fun target => target.identifier ++ ",")

def unreachableText : Text :=
  raiseText "unreachable case"

/-- The first line of a clause; the first clause of a branch is its leading
one. -/
def Guard.header (layout : Layout) (leading : Bool) (subject : Var)
    (guard : Guard) : Text :=
  let keyword : Text := if leading then "if " else "elif "
  match guard with
  | .hasTag tag ctor =>
      keyword ++ subject.identifier ++ "[0] == " ++ Text.ofInt tag ++ ":" ++
        (if layout.comments then "  # " ++ ctor.display else [])
  | .equals value =>
      keyword ++ subject.identifier ++ " == " ++ value.text layout.restart ++
        ":"
  | .tagBelow tag =>
      keyword ++ subject.identifier ++ "[0] < " ++ Text.ofInt tag ++ ":"
  | .otherwise => "else:"

namespace Stmt

mutual

def lines (layout : Layout) : Stmt → List Text
  | .assign target value =>
      [target.identifier ++ " = " ++ value.text layout.restart]
  | .unpack targets subject =>
      [targetsText targets ++ " = " ++ subject.identifier ++ "[1:]"]
  | .rebind targets values =>
      [targetsText targets ++ " = " ++
        Text.join " " (values.map fun value =>
          value.text layout.restart ++ ",")]
  | .continue => ["continue"]
  | .unreachable => [unreachableText]
  | .branch subject clauses => clausesLines layout subject true clauses
  | .define name params frozen body result =>
      ("def " ++ name.identifier ++ "(" ++ paramsText params frozen ++ "):") ::
        indented
          (linesList layout body ++ ["return " ++ result.text layout.restart])

def linesList (layout : Layout) : List Stmt → List Text
  | [] => []
  | stmt :: stmts => lines layout stmt ++ linesList layout stmts

def clausesLines (layout : Layout) (subject : Var) (leading : Bool) :
    List Clause → List Text
  | [] => []
  | .mk guard body :: clauses =>
      guard.header layout leading subject ::
        (indented (linesList layout body) ++
          clausesLines layout subject false clauses)

end

end Stmt

end TailLoop.Code
