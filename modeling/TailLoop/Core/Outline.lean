import TailLoop.Core.Program

/-!
# Outlines

A readable tree of a program, one line for each node and field.
-/

namespace TailLoop

mutual

inductive Outline where
  /-- A node that is shown on its own line. -/
  | leaf (label text : Text)
  | node (label : Text) (fields : List Outline.Field)

/-- A named field of a node. -/
inductive Outline.Field where
  | line (name text : Text)
  | part (name : Text) (outline : Outline)
  | row (name : Text) (outlines : List Outline)

end

namespace Outline

def indentation (depth : Nat) : Text :=
  List.replicate (2 * depth) (CodePoint.ofChar ' ')

mutual

/-- The lines of an outline.  Parts of a field stand two steps deeper than its
node. -/
def lines (depth : Nat) : Outline → List Text
  | .leaf label text => [indentation depth ++ label ++ ": " ++ text]
  | .node label fields =>
      (indentation depth ++ label) :: fieldsLines depth fields

def fieldsLines (depth : Nat) : List Field → List Text
  | [] => []
  | field :: fields => fieldLines depth field ++ fieldsLines depth fields

def fieldLines (depth : Nat) : Field → List Text
  | .line name text => [indentation (depth + 1) ++ name ++ ": " ++ text]
  | .part name outline =>
      (indentation (depth + 1) ++ name ++ ":") :: lines (depth + 2) outline
  | .row name [] => [indentation (depth + 1) ++ name ++ ": []"]
  | .row name (outline :: outlines) =>
      (indentation (depth + 1) ++ name ++ ":") ::
        (lines (depth + 2) outline ++ listLines (depth + 2) outlines)

def listLines (depth : Nat) : List Outline → List Text
  | [] => []
  | outline :: outlines => lines depth outline ++ listLines depth outlines

end

/-- All lines, each with its line break. -/
def text (outline : Outline) : Text :=
  (lines 0 outline).flatMap (· ++ "\n")

end Outline

namespace Name

def kindLabel : Name → Text
  | .user _ => "UserName"
  | .scoped _ _ => "NSName"
  | .machine _ _ => "MachineName"

def outline (name : Name) : Outline :=
  .leaf name.kindLabel name.text

end Name

def Var.outline : Var → Outline
  | .slot index => .node "Local" [.line "index" (Text.ofInt index)]
  | .named name => .node "Global" [.line "name" name.text]

def Const.outline (const : Const) : Outline :=
  .node "Const" (.line "kind" const.kind.text ::
    const.valueText?.toList.map (.line "value"))

def Prim.outline : Prim → Outline
  | .standard op kind =>
      .node "Prim" [.line "op" op.text, .line "kind" kind.text]
  | .external name kind =>
      .node "Prim" [.line "op" externalText, .line "kind" kind.text,
        .line "name" (Text.quoted name)]

namespace ForeignTarget

mutual

def outline : ForeignTarget → Outline
  | .named name => .node "ForeignName" [.line "name" (Text.quoted name)]
  | .con name => .node "ForeignCon" [.line "name" (Text.quoted name)]
  | .app name args =>
      .node "ForeignApp" [.line "name" (Text.quoted name),
        .row "args" (outlines args)]
  | .unknown => .node "ForeignUnknown" []

def outlines : List ForeignTarget → List Outline
  | [] => []
  | target :: targets => outline target :: outlines targets

end

end ForeignTarget

def tagField (tag : Option Int) : List Outline.Field :=
  tag.toList.map fun tag => .line "tag" (Text.ofInt tag)

namespace Expr

def flagText (flag : Bool) : Text :=
  if flag then "True" else "False"

mutual

def outline : Expr → Outline
  | .var v => .node "Var" [.part "var" v.outline]
  | .app func args tail =>
      .node "App" [.part "func" (outline func), .row "args" (outlines args),
        .line "tail" (flagText tail)]
  | .lazyApp name args =>
      .node "LazyApp" [.line "name" name.text, .row "args" (outlines args)]
  | .lazy body => .node "Lazy" [.part "expr" (outline body)]
  | .force body => .node "Force" [.part "expr" (outline body)]
  | .lam params body =>
      .node "Lam" [.row "params" (params.map Name.outline),
        .part "body" (outline body)]
  | .letIn name value body =>
      .node "Let" [.line "name" name.text, .part "value" (outline value),
        .part "body" (outline body)]
  | .con name args tag =>
      .node "Con" (.line "name" name.text :: .row "args" (outlines args) ::
        tagField tag)
  | .case scrutinee alts =>
      .node "Case" [.part "scrutinee" (outline scrutinee),
        .row "alts" (altOutlines alts)]
  | .proj body index =>
      .node "Proj" [.part "expr" (outline body),
        .line "index" (Text.ofInt index)]
  | .lit const => .node "Lit" [.part "const" const.outline]
  | .foreign target args =>
      .node "Foreign" [.part "target" target.outline,
        .row "args" (outlines args)]
  | .op prim args =>
      .node "Op" [.part "prim" prim.outline, .row "args" (outlines args)]
  | .fail message => .node "Fail" [.line "message" (Text.quoted message)]
  | .null => .node "Null" []

def outlines : List Expr → List Outline
  | [] => []
  | expr :: exprs => outline expr :: outlines exprs

def altOutlines : List Alt → List Outline
  | [] => []
  | .con ctor args body :: alts =>
      .node "ConAlt" [.line "ctor" ctor.text,
        .row "args" (args.map Name.outline), .part "body" (outline body)] ::
          altOutlines alts
  | .const const body :: alts =>
      .node "ConstAlt" [.part "const" const.outline,
        .part "body" (outline body)] ::
        altOutlines alts
  | .default body :: alts =>
      .node "DefaultAlt" [.part "body" (outline body)] :: altOutlines alts

end

end Expr

def Declaration.outline : Declaration → Outline
  | .function f =>
      .node "FunDecl" [.line "name" f.name.text,
        .row "params" (f.params.map Name.outline), .part "body" f.body.outline]
  | .constructor c =>
      .node "ConDecl" (.line "name" c.name.text ::
        .line "arity" (Text.ofInt c.arity) :: tagField c.tag)

def Program.outline (program : Program) : Outline :=
  .node "Program"
    [.row "declarations" (program.declarations.map Declaration.outline),
    .line "entry" program.entry.text]

end TailLoop
