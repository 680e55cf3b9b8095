import TailLoop.Text.Quoted

/-!
# Foreign call targets

Only a target that names its function directly can be called.
-/

namespace TailLoop

inductive ForeignTarget where
  | named (name : Text)
  | con (name : Text)
  | app (name : Text) (args : List ForeignTarget)
  | unknown

namespace ForeignTarget

mutual

/-- The descriptor as it is quoted in messages.  A row of one argument ends in a
comma. -/
def text : ForeignTarget → Text
  | .named name => "ForeignName(name=" ++ Text.quoted name ++ ")"
  | .con name => "ForeignCon(name=" ++ Text.quoted name ++ ")"
  | .app name args =>
      let row :=
        match textList args with
        | [arg] => arg ++ ","
        | args => Text.join ", " args
      "ForeignApp(name=" ++ Text.quoted name ++ ", args=(" ++ row ++ "))"
  | .unknown => "ForeignUnknown()"

def textList : List ForeignTarget → List Text
  | [] => []
  | target :: targets => text target :: textList targets

end

end ForeignTarget

end TailLoop
