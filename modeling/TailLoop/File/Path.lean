import TailLoop.Text.Basic

/-!
# Paths

A path is a list of names from the root or from the working directory.  Empty
names and single dots say nothing and are dropped; double dots are kept, as what
they lead to depends on the directory before them.
-/

namespace TailLoop

/-- Where a path starts.  A root written with exactly two separators keeps both
in the text of its paths, and is the same directory. -/
inductive Path.Start where
  | working
  | root
  | doubleRoot
deriving DecidableEq

structure Path where
  start : Path.Start
  names : List Text
deriving DecidableEq

namespace Path

def separator : CodePoint := '/'

def here : Text := "."

def upward : Text := ".."

/-- The code point no name may hold. -/
def forbidden : CodePoint := '\x00'

/-- The start of a path that is written with so many separators in front. -/
def Start.ofCount : Nat → Start
  | 0 => .working
  | 2 => .doubleRoot
  | _ => .root

def Start.text : Start → Text
  | .working => []
  | .root => [separator]
  | .doubleRoot => [separator, separator]

/-- The path of names from the root on. -/
def absolute (names : List Text) : Path := ⟨.root, names⟩

def ofText (text : Text) : Path where
  start := Start.ofCount (text.takeWhile fun c => c = separator).length
  names := (Text.split separator text).filter fun name =>
    !name.isEmpty && name != here

def text (path : Path) : Text :=
  if path.start = .working ∧ path.names = [] then here
  else path.start.text ++ Text.join [separator] path.names

/-- Whether a file could have this path. -/
def isLegal (path : Path) : Bool :=
  path.names.all fun name => !name.contains forbidden

/-- The path that a second one leads to from here. -/
def join (path next : Path) : Path :=
  if next.start = .working then
    { path with names := path.names ++ next.names } else next

/-- The path of a name in this directory. -/
def child (path : Path) (name : Text) : Path :=
  { path with names := path.names ++ [name] }

def parent (path : Path) : Path :=
  { path with names := path.names.dropLast }

/-- The last name; empty for the root and the working directory. -/
def name (path : Path) : Text :=
  path.names.getLastD []

def withName (name : Text) (path : Path) : Path :=
  path.parent.child name

/-- The names from the root on, where a double dot cancels the name before
it. -/
def settledNames (names : List Text) : List Text :=
  names.foldl (fun done name => if name = upward then done.dropLast else
    done ++ [name]) []

/-- The path from the root that this one stands for in a working directory. -/
def resolve (working path : Path) : Path :=
  absolute (settledNames (working.join path).names)

end Path

end TailLoop
