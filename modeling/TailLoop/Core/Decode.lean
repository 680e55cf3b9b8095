import TailLoop.Core.Program
import TailLoop.Diagnostic
import TailLoop.Json.Display
import TailLoop.Json.Reader

/-!
# Programs as documents

A program is written as a JSON document, each node as an object with a `kind`.
Reading stops at the first part that has not the form it should have.
-/

namespace TailLoop.Decode

/-- The parts of a program that are written as objects. -/
inductive Part where
  | program
  | declaration
  | expression
  | alternative
  | constant
  | foreignTarget
deriving DecidableEq

def Part.label : Part → Text
  | .program => "the program"
  | .declaration => "a declaration"
  | .expression => "an expression"
  | .alternative => "a case alternative"
  | .constant => "a constant"
  | .foreignTarget => "a foreign target"

/-- The words that are chosen from a fixed list. -/
inductive Choice where
  | declarationKind
  | expressionKind
  | alternativeKind
  | foreignKind
  | constantKind
  | primitive
  | numericKind
deriving DecidableEq

def Choice.label : Choice → Text
  | .declarationKind => "declaration kind"
  | .expressionKind => "expression kind"
  | .alternativeKind => "alternative kind"
  | .foreignKind => "foreign target kind"
  | .constantKind => "constant kind"
  | .primitive => "primitive"
  | .numericKind => "numeric kind"

/-- Why a document is no program.  The owner of a field is known by its
`kind`. -/
inductive Fault where
  | missingField (name : Text) (owner : Option Text)
  | wrongType (name : Text) (owner : Option Text)
  | expectedObject (part : Part)
  | expectedName (found : Text)
  | namespaceParts
  | machineName
  | charLength (found : Text)
  | unknown (choice : Choice) (found : Text)
  | floatRange
deriving DecidableEq

abbrev Members := List (Text × Json)

/-- The value of a field, `null` where it is absent. -/
def valueAt (name : Text) (members : Members) :
    { value : Json // sizeOf value < sizeOf (Json.obj members) } :=
  match found : Json.find? name members with
  | some value => ⟨value, by
      have := Json.sizeOf_lt_of_find? found
      simp only [Json.obj.sizeOf_spec]
      omega⟩
  | none => ⟨.null, by
      cases members with
      | nil => simp
      | cons member members =>
          simp only [Json.null.sizeOf_spec, Json.obj.sizeOf_spec,
            List.cons.sizeOf_spec]
          omega⟩

theorem valueAt_fst (name : Text) (members : Members) :
    (valueAt name members).1 = (Json.find? name members).getD .null := by
  unfold valueAt
  split
  · rename_i found
    exact (congrArg (Option.getD · Json.null) found).symm
  · rename_i absent
    exact (congrArg (Option.getD · Json.null) absent).symm

def hasField (name : Text) (members : Members) : Bool :=
  (Json.find? name members).isSome

def owner (members : Members) : Option Text :=
  match Json.find? "kind" members with
  | some (.str kind) => some kind
  | _ => none

def missing {α : Type} (name : Text) (members : Members) : Except Fault α :=
  .error (.missingField name (owner members))

def mistyped {α : Type} (name : Text) (members : Members) : Except Fault α :=
  .error (.wrongType name (owner members))

def textField (name : Text) (members : Members) : Except Fault Text :=
  match Json.find? name members with
  | some (.str value) => .ok value
  | some _ => mistyped name members
  | none => missing name members

def intField (name : Text) (members : Members) : Except Fault Int :=
  match Json.find? name members with
  | some (.int value) => .ok value
  | some _ => mistyped name members
  | none => missing name members

/-- A binary64 number, which may be written as an integer. -/
def floatField (name : Text) (members : Members) : Except Fault Double :=
  match Json.find? name members with
  | some (.float value) => .ok value
  | some (.int value) =>
      match Double.ofInt? value with
      | some value => .ok value
      | none => .error .floatRange
  | some _ => mistyped name members
  | none => missing name members

def listField (name : Text) (members : Members) :
    Except Fault { items : List Json // sizeOf items <
      sizeOf (Json.obj members) } :=
  match found : Json.find? name members with
  | some (.arr items) => .ok ⟨items, by
      have := Json.sizeOf_lt_of_find? found
      simp only [Json.arr.sizeOf_spec] at this
      simp only [Json.obj.sizeOf_spec]
      omega⟩
  | some _ => mistyped name members
  | none => missing name members

theorem find?_of_listField {name : Text} {members : Members}
    {items : { items : List Json // sizeOf items < sizeOf (Json.obj members) }}
    (read : listField name members = .ok items) :
    Json.find? name members = some (.arr items.1) := by
  unfold listField at read
  split at read
  · rename_i found
    cases read
    exact found
  · cases read
  · cases read

theorem sizeOf_valueAt (name : Text) (members : Members) :
    sizeOf (valueAt name members).1 < sizeOf (Json.obj members) :=
  (valueAt name members).2

theorem sizeOf_items {members : Members}
    (items : { items : List Json // sizeOf items <
      sizeOf (Json.obj members) }) :
    sizeOf items.1 < sizeOf (Json.obj members) :=
  items.2

/-- A tag may be absent or `null`. -/
def tagField (members : Members) : Except Fault (Option Int) :=
  match Json.find? "tag" members with
  | none => .ok none
  | some .null => .ok none
  | some _ => (intField "tag" members).map some

/-- Dots separate namespaces, unless one of the parts would be empty. -/
def nameOfText (text : Text) : Name :=
  let parts := Text.split '.' text
  match parts.reverse with
  | last :: outer :: rest =>
      if parts.all (fun part => !part.isEmpty) then
        .scoped (outer :: rest).reverse (.user last)
      else .user text
  | _ => .user text

def texts? : List Json → Option (List Text)
  | [] => some []
  | .str text :: items => (texts? items).map (text :: ·)
  | _ :: _ => none

def name (json : Json) : Except Fault Name :=
  match json with
  | .str text => .ok (nameOfText text)
  | .obj members =>
      if hasField "user" members then (textField "user" members).map .user
      else if hasField "ns" members then
        match listField "ns" members with
        | .error fault => .error fault
        | .ok parts =>
            match texts? parts.1 with
            | none => .error .namespaceParts
            | some namespaces =>
                (name (valueAt "name" members).1).map (.scoped namespaces)
      else if hasField "mn" members then
        match listField "mn" members with
        | .error fault => .error fault
        | .ok pair =>
            match pair.1 with
            | [.int index, .str text] => .ok (.machine index text)
            | _ => .error .machineName
      else .error (.expectedName (Json.obj members).display)
  | json => .error (.expectedName json.display)
termination_by sizeOf json
decreasing_by exact sizeOf_valueAt _ _

def names : List Json → Except Fault (List Name)
  | [] => .ok []
  | item :: items => do
      let first ← name item
      let rest ← names items
      return first :: rest

def constant : Json → Except Fault Const
  | .obj members => do
      let kind ← textField "kind" members
      match Const.Kind.ofText? kind with
      | none => .error (.unknown .constantKind kind)
      | some .int => return .int (← intField "value" members)
      | some .bigInt => return .bigInt (← intField "value" members)
      | some .float => return .float (← floatField "value" members)
      | some .char =>
          match ← textField "value" members with
          | [point] => return .char point
          | text => .error (.charLength text)
      | some .string => return .string (← textField "value" members)
      | some .world => return .world
      | some .type => return .type
  | _ => .error (.expectedObject .constant)

/-- The kind of numbers, integers where none is given. -/
def numKind (members : Members) : Except Fault NumKind :=
  match Json.find? "ty" members with
  | none => .ok .int
  | some value =>
      let found :=
        match value with
        | .str text => NumKind.ofText? text
        | _ => none
      match found with
      | some kind => .ok kind
      | none => .error (.unknown .numericKind value.bareText)

def prim (members : Members) : Except Fault Prim := do
  let op ← textField "op" members
  if op = Prim.externalText then
    let kind ← numKind members
    return .external (← textField "name" members) kind
  else
    match PrimOp.ofText? op with
    | none => .error (.unknown .primitive op)
    | some op => return .standard op (← numKind members)

inductive ForeignKind where
  | named
  | con
  | app
  | unknown

def ForeignKind.table : List (Text × ForeignKind) :=
  [("name", .named), ("con", .con), ("app", .app), ("unknown", .unknown)]

/-- The entry of a word in a table. -/
def chosen {α : Type} (choice : Choice) (table : List (Text × α))
    (word : Text) :
    Except Fault α :=
  match table.find? fun entry => entry.1 = word with
  | some entry => .ok entry.2
  | none => .error (.unknown choice word)

mutual

def foreignTarget (json : Json) : Except Fault ForeignTarget :=
  match json with
  | .obj members => do
      let kind ← textField "kind" members
      match ← chosen .foreignKind ForeignKind.table kind with
      | .named => return .named (← textField "name" members)
      | .con => return .con (← textField "name" members)
      | .app =>
          if hasField "args" members then
            let items ← listField "args" members
            let args ← foreignTargets items.1
            return .app (← textField "name" members) args
          else return .app (← textField "name" members) []
      | .unknown => return .unknown
  | _ => .error (.expectedObject .foreignTarget)
termination_by sizeOf json
decreasing_by exact sizeOf_items _

def foreignTargets (items : List Json) : Except Fault (List ForeignTarget) :=
  match items with
  | [] => return []
  | item :: items => do
      let first ← foreignTarget item
      let rest ← foreignTargets items
      return first :: rest
termination_by sizeOf items

end

inductive ExprKind where
  | var
  | loc
  | app
  | lazyApp
  | lazy
  | force
  | lam
  | letIn
  | con
  | case
  | proj
  | const
  | foreign
  | op
  | error
  | null

def ExprKind.table : List (Text × ExprKind) :=
  [("var", .var), ("loc", .loc), ("app", .app), ("lazyapp", .lazyApp),
    ("lazy", .lazy), ("force", .force), ("lam", .lam), ("let", .letIn),
    ("con", .con), ("case", .case), ("proj", .proj), ("const", .const),
    ("foreign", .foreign), ("op", .op), ("error", .error), ("null", .null)]

inductive AltKind where
  | con
  | const
  | default

def AltKind.table : List (Text × AltKind) :=
  [("con", .con), ("const", .const), ("default", .default)]

mutual

def expr (json : Json) : Except Fault Expr :=
  match json with
  | .obj members => do
      let kind ← textField "kind" members
      match ← chosen .expressionKind ExprKind.table kind with
      | .var => return .var (.named (← name (valueAt "name" members).1))
      | .loc => return .var (.slot (← intField "index" members))
      | .app =>
          let func ← expr (valueAt "func" members).1
          let items ← listField "args" members
          let args ← exprs items.1
          return .app func args (valueAt "tail" members).1.truth
      | .lazyApp =>
          let callee ← name (valueAt "name" members).1
          let items ← listField "args" members
          let args ← exprs items.1
          return .lazyApp callee args
      | .lazy => return .lazy (← expr (valueAt "expr" members).1)
      | .force => return .force (← expr (valueAt "expr" members).1)
      | .lam =>
          let items ← listField "params" members
          let params ← names items.1
          return .lam params (← expr (valueAt "body" members).1)
      | .letIn =>
          let binder ← name (valueAt "name" members).1
          let value ← expr (valueAt "value" members).1
          return .letIn binder value (← expr (valueAt "body" members).1)
      | .con =>
          let tag ← tagField members
          let ctor ← name (valueAt "name" members).1
          let items ← listField "args" members
          let args ← exprs items.1
          return .con ctor args tag
      | .case =>
          let scrutinee ← expr (valueAt "scrutinee" members).1
          let items ← listField "alts" members
          return .case scrutinee (← alts items.1)
      | .proj =>
          let body ← expr (valueAt "expr" members).1
          return .proj body (← intField "index" members)
      | .const => return .lit (← constant (valueAt "value" members).1)
      | .foreign =>
          let target ← foreignTarget (valueAt "target" members).1
          let items ← listField "args" members
          let args ← exprs items.1
          return .foreign target args
      | .op =>
          let operation ← prim members
          let items ← listField "args" members
          let args ← exprs items.1
          return .op operation args
      | .error => return .fail (← textField "message" members)
      | .null => return .null
  | _ => .error (.expectedObject .expression)
termination_by sizeOf json
decreasing_by all_goals first | exact sizeOf_valueAt _ _ | exact sizeOf_items _

def exprs (items : List Json) : Except Fault (List Expr) :=
  match items with
  | [] => return []
  | item :: items => do
      let first ← expr item
      let rest ← exprs items
      return first :: rest
termination_by sizeOf items

def alt (json : Json) : Except Fault Alt :=
  match json with
  | .obj members => do
      let kind ← textField "kind" members
      match ← chosen .alternativeKind AltKind.table kind with
      | .con =>
          let ctor ← name (valueAt "name" members).1
          let items ← listField "args" members
          let args ← names items.1
          return .con ctor args (← expr (valueAt "body" members).1)
      | .const =>
          let value ← constant (valueAt "value" members).1
          return .const value (← expr (valueAt "body" members).1)
      | .default => return .default (← expr (valueAt "body" members).1)
  | _ => .error (.expectedObject .alternative)
termination_by sizeOf json
decreasing_by all_goals exact sizeOf_valueAt _ _

def alts (items : List Json) : Except Fault (List Alt) :=
  match items with
  | [] => return []
  | item :: items => do
      let first ← alt item
      let rest ← alts items
      return first :: rest
termination_by sizeOf items

end

inductive DeclarationKind where
  | function
  | constructor

def DeclarationKind.table : List (Text × DeclarationKind) :=
  [("function", .function), ("constructor", .constructor)]

def declaration : Json → Except Fault Declaration
  | .obj members => do
      let kind ← textField "kind" members
      match ← chosen .declarationKind DeclarationKind.table kind with
      | .function =>
          let name ← Decode.name (valueAt "name" members).1
          let items ← listField "params" members
          let params ← names items.1
          let body ← expr (valueAt "body" members).1
          return .function ⟨name, params, body⟩
      | .constructor =>
          let tag ← tagField members
          let name ← Decode.name (valueAt "name" members).1
          let arity ← intField "arity" members
          return .constructor ⟨name, arity, tag⟩
  | _ => .error (.expectedObject .declaration)

def declarations : List Json → Except Fault (List Declaration)
  | [] => return []
  | item :: items => do
      let first ← declaration item
      let rest ← declarations items
      return first :: rest

def program : Json → Except Fault Program
  | .obj members => do
      let items ← listField "declarations" members
      let declarations ← Decode.declarations items.1
      match Json.find? "entry" members with
      | some entry => return ⟨declarations, ← name entry⟩
      | none => return ⟨declarations, .runMain⟩
  | _ => .error (.expectedObject .program)

end TailLoop.Decode
