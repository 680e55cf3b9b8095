import TailLoop.Number.Double
import TailLoop.Text.Basic

/-!
# JSON values

Whole numbers are kept apart from binary64 numbers, and the members of an object
keep the order in which their names first occur.
-/

namespace TailLoop

inductive Json where
  | null
  | bool (value : Bool)
  | int (value : Int)
  | float (value : Double)
  | str (value : Text)
  | arr (items : List Json)
  | obj (members : List (Text × Json))

namespace Json

/-- Adds a member.  A repeated name takes the new value at its old place. -/
def insert (name : Text) (value : Json) :
    List (Text × Json) → List (Text × Json)
  | [] => [(name, value)]
  | (other, old) :: members =>
      if other = name then (name, value) :: members
      else (other, old) :: insert name value members

def find? (name : Text) : List (Text × Json) → Option Json
  | [] => none
  | (other, value) :: members =>
      if other = name then some value else find? name members

/-- The value of a member, if the value is an object that has one of this
name. -/
def get? (name : Text) : Json → Option Json
  | .obj members => find? name members
  | _ => none

theorem sizeOf_lt_of_find? {name : Text} {members : List (Text × Json)}
    {value : Json} (found : find? name members = some value) :
    sizeOf value < sizeOf members := by
  induction members with
  | nil => simp [find?] at found
  | cons member members ih =>
      obtain ⟨other, head⟩ := member
      simp only [find?] at found
      split at found
      · cases found
        simp only [List.cons.sizeOf_spec, Prod.mk.sizeOf_spec]
        omega
      · have := ih found
        simp only [List.cons.sizeOf_spec, Prod.mk.sizeOf_spec]
        omega

/-- Absent and empty values count as false: `null`, `false`, zeros, and empty
texts, arrays and objects. -/
def truth : Json → Bool
  | .null => false
  | .bool value => value
  | .int value => value != 0
  | .float value => !value.isZero
  | .str value => !value.isEmpty
  | .arr items => !items.isEmpty
  | .obj members => !members.isEmpty

end Json

end TailLoop
