import TailLoop.Text.Basic

/-!
# Names and variables

Names are compared by their structure: a user name that holds a dot differs from
a name in a namespace even where both are displayed alike.
-/

namespace TailLoop

inductive Name where
  | user (text : Text)
  /-- A name inside namespaces, the outermost first. -/
  | scoped (namespaces : List Text) (name : Name)
  /-- A name made by a compiler, such as `e0`. -/
  | machine (index : Int) (text : Text)
deriving DecidableEq

namespace Name

instance : Inhabited Name := ⟨.user []⟩

/-- The text by which a name is shown to the user. -/
def text : Name → Text
  | .user text => text
  | .scoped namespaces name => Text.join "." (namespaces ++ [name.text])
  | .machine index text => "\x7b" ++ text ++ Text.ofInt index ++ "\x7d"

/-- The entry point of a program that does not name one. -/
def runMain : Name := .machine 0 "runMain"

end Name

/-- A numbered slot or a named variable.  Slots below zero are temporaries. -/
inductive Var where
  | slot (index : Int)
  | named (name : Name)
deriving DecidableEq

end TailLoop
