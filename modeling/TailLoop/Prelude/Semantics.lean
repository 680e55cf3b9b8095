import TailLoop.Json.Basic

/-!
# What the prelude computes

The functions every generated program starts with, on values.  A list of
arguments is a chain of three-part cells (tag, head, rest) and ends at the first
value of another length.  Applying a value of the program and loading a module
are parameters: both are the program's own affair.
-/

namespace TailLoop.Prelude

inductive Fault where
  | raised (message : Text)
  | wrongType
  | missingEntry
  | missingModule
deriving DecidableEq

/-- Stops the program with a message of its own. -/
def raise {α : Type} (message : Text) : Except Fault α :=
  .error (.raised message)

def isNone : Json → Int
  | .null => 1
  | _ => 0

/-- The heads of a chain of cells.  The parts of a text are texts of one code
point, and an object has no parts that a position could name. -/
def arguments : Json → Except Fault (List Json)
  | .arr [_, head, rest] => (arguments rest).map (head :: ·)
  | .arr _ => .ok []
  | .str [_, head, _] => .ok [.str [head]]
  | .str _ => .ok []
  | .obj [_, _, _] => .error .missingEntry
  | .obj _ => .ok []
  | _ => .error .wrongType

def call {α : Type} (function : List Json → α) (chain : Json) :
    Except Fault α :=
  (arguments chain).map function

/-- What a loop over a value visits, in order. -/
def items : Json → Except Fault (List Json)
  | .arr values => .ok values
  | .str text => .ok (text.map fun c => .str [c])
  | .obj members => .ok (members.map fun member => .str member.1)
  | _ => .error .wrongType

/-- Threads a state through a loop: the body is applied to the state, the item
and the world token. -/
def foreach (apply : Json → Json → Json) (sequence state body : Json) :
    Except Fault Json :=
  (items sequence).map fun values =>
    values.foldl (fun state item => apply (apply (apply body state) item) .null)
      state

/-- A field of an object: an attribute, or else an entry that only its table
has. -/
def field (attributes hidden : List (Text × Json)) (name : Text) :
    Except Fault Json :=
  match Json.find? name attributes with
  | some value => .ok value
  | none =>
      match Json.find? name hidden with
      | some value => .ok value
      | none => .error .missingEntry

/-- The modules loaded so far. -/
abbrev Modules := List (Text × Json)

namespace Modules

/-- A module from the table, or else loaded and remembered.  A module that was
loaded as nothing is loaded again. -/
def get (load : Text → Option Json) (name : Text) (modules : Modules) :
    Except Fault (Json × Modules) :=
  match (Json.find? name modules).getD .null with
  | .null =>
      match load name with
      | some value => .ok (value, Json.insert name value modules)
      | none => .error .missingModule
  | value => .ok (value, modules)

/-- The names of the loaded modules in ascending order. -/
def names (modules : Modules) : List Text :=
  (modules.map Prod.fst).mergeSort Text.le

end Modules

end TailLoop.Prelude
