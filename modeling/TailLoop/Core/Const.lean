import TailLoop.Number.Decimal
import TailLoop.Text.Quoted

/-!
# Constants
-/

namespace TailLoop

inductive Const where
  | int (value : Int)
  | bigInt (value : Int)
  | float (value : Double)
  | char (value : CodePoint)
  | string (value : Text)
  | world
  | type
deriving DecidableEq

namespace Const

/-- The kinds of constants. -/
inductive Kind where
  | int
  | bigInt
  | float
  | char
  | string
  | world
  | type
deriving DecidableEq

def Kind.text : Kind → Text
  | .int => "int"
  | .bigInt => "bigint"
  | .float => "float"
  | .char => "char"
  | .string => "string"
  | .world => "world"
  | .type => "type"

def Kind.all : List Kind :=
  [.int, .bigInt, .float, .char, .string, .world, .type]

def Kind.ofText? (text : Text) : Option Kind :=
  all.find? fun kind => kind.text = text

def kind : Const → Kind
  | .int _ => .int
  | .bigInt _ => .bigInt
  | .float _ => .float
  | .char _ => .char
  | .string _ => .string
  | .world => .world
  | .type => .type

/-- The text of the value a constant carries. -/
def valueText? : Const → Option Text
  | .int value => some (Text.ofInt value)
  | .bigInt value => some (Text.ofInt value)
  | .float value => some value.text
  | .char value => some (Text.quoted [value])
  | .string value => some (Text.quoted value)
  | .world => none
  | .type => none

def text (const : Const) : Text :=
  match const.valueText? with
  | some value => const.kind.text ++ " " ++ value
  | none => const.kind.text

end Const

end TailLoop
