import TailLoop.Text.Basic

/-!
# Line ends
-/

namespace TailLoop.Text

/-- Every pair of a carriage return and a newline becomes one newline. -/
def joinNewlines : Text → Text
  | [] => []
  | [c] => [c]
  | c :: d :: rest =>
      if c = '\r' ∧ d = '\n' then d :: joinNewlines rest else
        c :: joinNewlines (d :: rest)

/-- Every line end becomes a newline: pairs as well as single carriage
returns. -/
def unifyNewlines (text : Text) : Text :=
  (joinNewlines text).map fun c : CodePoint => if c = '\r' then '\n' else c

end TailLoop.Text
