import TailLoop.File.Path

/-!
# File trees

Files and directories by their location, the list of names from the root.  The
root is always a directory.  A path is followed name by name, and every name but
the last has to lead to a directory.  Names and whole paths are limited in
length.
-/

namespace TailLoop

inductive FileKind where
  | file
  | directory
deriving DecidableEq

/-- Why a file operation failed. -/
inductive FileFault where
  | missing
  | notDirectory
  | isDirectory
  | taken
  | badName
  | tooLong
deriving DecidableEq

def FileFault.message : FileFault → Text
  | .missing => "no such file or directory"
  | .notDirectory => "not a directory"
  | .isDirectory => "is a directory"
  | .taken => "file exists"
  | .badName => "embedded null byte"
  | .tooLong => "file name too long"

/-- A file operation that failed, with the path it was about. -/
structure FileFailure where
  fault : FileFault
  path : Path
deriving DecidableEq

inductive FileEntry where
  | file (text : Text)
  | directory
deriving DecidableEq

abbrev Location := List Text

structure FileTree where
  entries : List (Location × FileEntry)
  working : Location

namespace FileTree

def entry? (location : Location) (tree : FileTree) : Option FileEntry :=
  if location.isEmpty then some .directory
  else (tree.entries.find? fun entry => entry.1 = location).map Prod.snd

/-- Puts an entry at a location, in place of the one before. -/
def set (location : Location) (entry : FileEntry) (tree : FileTree) :
    FileTree :=
  { tree with
    entries := (location, entry) :: tree.entries.filter fun other =>
      other.1 ≠ location }

/-- The greatest number of bytes of a name. -/
def nameLimit : Nat := 255

/-- The greatest number of bytes of a path. -/
def pathLimit : Nat := 4095

/-- The location that names lead to from a location. -/
def follow (tree : FileTree) : Location → List Text → Except FileFault Location
  | location, [] => .ok location
  | location, name :: names =>
      match tree.entry? location with
      | none => .error .missing
      | some (.file _) => .error .notDirectory
      | some .directory =>
          if nameLimit < name.byteCount then .error .tooLong
          else follow tree (if name = Path.upward then location.dropLast else
            location ++ [name]) names

def locate (path : Path) (tree : FileTree) : Except FileFault Location :=
  if !path.isLegal then .error .badName
  else if pathLimit < path.text.byteCount then .error .tooLong
  else tree.follow (if path.start = .working then tree.working else
    []) path.names

/-- The kind of what is at a path, if there is something.  It is a fault only if
the path is too long to be followed. -/
def kind? (path : Path) (tree : FileTree) :
    Except FileFault (Option FileKind) :=
  match tree.locate path with
  | .error .tooLong => .error .tooLong
  | .error _ => .ok none
  | .ok location =>
      .ok ((tree.entry? location).map fun
        | .file _ => .file
        | .directory => .directory)

def read (path : Path) (tree : FileTree) : Except FileFault Text := do
  let location ← tree.locate path
  match tree.entry? location with
  | none => .error .missing
  | some .directory => .error .isDirectory
  | some (.file text) => .ok text

def write (path : Path) (text : Text) (tree : FileTree) :
    Except FileFault FileTree := do
  let location ← tree.locate path
  match tree.entry? location with
  | some .directory => .error .isDirectory
  | _ => .ok (tree.set location (.file text))

/-- Makes a directory in one that exists. -/
def makeDirectory (path : Path) (tree : FileTree) :
    Except FileFault FileTree := do
  let location ← tree.locate path
  match tree.entry? location with
  | some _ => .error .taken
  | none => .ok (tree.set location .directory)

/-- The files and their texts. -/
def files (tree : FileTree) : List (Location × Text) :=
  tree.entries.filterMap fun
    | (location, .file text) => some (location, text)
    | _ => none

end FileTree

end TailLoop
