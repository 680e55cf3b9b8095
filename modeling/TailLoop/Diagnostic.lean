import TailLoop.Text.Basic

/-!
# Diagnostics

What a user is told about a program, and how it looks in a terminal.
-/

namespace TailLoop

inductive Severity where
  | error
  | warning
  | note
deriving DecidableEq

def Severity.label : Severity → Text
  | .error => "error"
  | .warning => "warning"
  | .note => "note"

/-- A remark on a declaration or an input file, named by `place`. -/
structure Diagnostic where
  severity : Severity
  code : Text
  message : Text
  place : Option Text
  notes : List Text
deriving DecidableEq

/-- The terminal sequences that switch a style on. -/
inductive Style where
  | severity (level : Severity)
  | bold
  | pointer

def Style.sequence : Style → Text
  | .severity .error => "\x1b[1;31m"
  | .severity .warning => "\x1b[1;33m"
  | .severity .note => "\x1b[1;36m"
  | .bold => "\x1b[1m"
  | .pointer => "\x1b[1;34m"

def Style.reset : Text := "\x1b[0m"

/-- A text in a style, or the bare text where colours are off. -/
def Style.paint (style : Style) (colored : Bool) (text : Text) : Text :=
  if colored then style.sequence ++ text ++ reset else text

namespace Diagnostic

def headline (colored : Bool) (diagnostic : Diagnostic) : Text :=
  let level := diagnostic.severity
  (Style.severity level).paint colored
  (level.label ++ "[" ++ diagnostic.code ++ "]") ++
    Style.bold.paint colored (": " ++ diagnostic.message)

/-- The line that names the place; an empty name has none. -/
def placeLine (colored : Bool) (diagnostic : Diagnostic) : List Text :=
  match diagnostic.place with
  | none => []
  | some [] => []
  | some place =>
      ["  " ++ Style.pointer.paint colored "-->" ++ " in `" ++ place ++ "`"]

def noteLine (colored : Bool) (note : Text) : Text :=
  "  " ++ Style.pointer.paint colored "=" ++ " note: " ++ note

def render (colored : Bool) (diagnostic : Diagnostic) : Text :=
  Text.join "\n" (diagnostic.headline colored :: diagnostic.placeLine colored ++
    diagnostic.notes.map (noteLine colored))

def isError (diagnostic : Diagnostic) : Bool :=
  diagnostic.severity == .error

/-- All messages on one line, after their number. -/
def summary (diagnostics : List Diagnostic) : Text :=
  Text.ofNat diagnostics.length ++ " error(s): " ++
    Text.join "; " (diagnostics.map Diagnostic.message)

end Diagnostic

end TailLoop
