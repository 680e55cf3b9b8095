import TailLoop.Core.Name
import TailLoop.Text.Quoted

/-!
# Identifiers

Every variable has an identifier of its own.  Letters and digits of a name stand
for themselves and other code points for their number between underscores; an
underscore before a letter marks the structure of the name.  Short names of
compilers stay readable, unless they could be taken for a slot or a temporary.
-/

namespace TailLoop

namespace Name

/-- The start of every encoded name. -/
def marker : Text := "ir_"

def namespaceMark : Text := "_n_"

def machineMark : Text := "_m_"

def separatorMark : Text := "_d_"

def escapedPoint (c : CodePoint) : Text :=
  if c.isLetter || c.isDigit then [c] else "_" ++ Text.ofNat c.val ++ "_"

def escaped (text : Text) : Text :=
  text.flatMap escapedPoint

def encoded : Name → Text
  | .user text => escaped text
  | .scoped namespaces name =>
      namespaceMark ++ namespaces.flatMap (fun part =>
        escaped part ++ separatorMark) ++
        encoded name
  | .machine index text =>
      machineMark ++ escaped (Text.ofInt index) ++ separatorMark ++ escaped text

def mangled (name : Name) : Text :=
  marker ++ encoded name

/-- The letters of slots and temporaries. -/
def slotText : Text := "loc"

def temporaryText : Text := "aux"

/-- A nonempty row of letters that is not reserved. -/
def isReadable (text : Text) : Bool :=
  !text.isEmpty && text.all CodePoint.isLetter && text != slotText && text !=
    temporaryText

def identifier : Name → Text
  | .machine (.ofNat index) text =>
      if isReadable text then text ++ Text.ofNat index
      else mangled (.machine (.ofNat index) text)
  | name => mangled name

/-- The text of a name on one line of a comment. -/
def display (name : Name) : Text :=
  if name.text.all CodePoint.isPrintable then name.text else
    Text.quotedAscii name.text

end Name

def Var.identifier : Var → Text
  | .slot (.ofNat index) => Name.slotText ++ Text.ofNat index
  | .slot (.negSucc index) => Name.temporaryText ++ Text.ofNat (index + 1)
  | .named name => name.identifier

end TailLoop
