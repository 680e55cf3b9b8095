import TailLoop.Json.Basic
import TailLoop.Number.Decimal
import TailLoop.Text.Quoted

/-!
# Displayed JSON values

The text of a value in a message.  Texts inside a value are quoted.  A value
with a whole number of too many digits is not displayed.
-/

namespace TailLoop.Json

mutual

def display : Json → Text
  | .null => "None"
  | .bool value => if value then "True" else "False"
  | .int value => Text.ofInt value
  | .float value => value.text
  | .str value => Text.quoted value
  | .arr items => "[" ++ Text.join ", " (displayItems items) ++ "]"
  | .obj members => "\x7b" ++ Text.join ", " (displayMembers members) ++ "\x7d"

def displayItems : List Json → List Text
  | [] => []
  | item :: items => display item :: displayItems items

def displayMembers : List (Text × Json) → List Text
  | [] => []
  | (name, value) :: members =>
      (Text.quoted name ++ ": " ++ display value) :: displayMembers members

end

mutual

/-- Whether every whole number in a value has at most so many digits. -/
def isWithin (limit : Nat) : Json → Bool
  | .int value => decide (value.natAbs < Nat.pow 10 limit)
  | .arr items => areWithin limit items
  | .obj members => membersWithin limit members
  | _ => true

def areWithin (limit : Nat) : List Json → Bool
  | [] => true
  | item :: items => isWithin limit item && areWithin limit items

def membersWithin (limit : Nat) : List (Text × Json) → Bool
  | [] => true
  | (_, value) :: members => isWithin limit value && membersWithin limit members

end

/-- The displayed value, but a bare text stands without quotes. -/
def bareText : Json → Text
  | .str value => value
  | value => display value

end TailLoop.Json
