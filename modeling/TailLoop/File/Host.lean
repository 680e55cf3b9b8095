import TailLoop.File.Tree
import TailLoop.Text.Terminal

/-!
# Hosts

What a command can do to the world: look at files and directories, write them,
and print.  A session is a host of its own, with a file tree and a record of
what was printed.
-/

namespace TailLoop

inductive Channel where
  | output
  | errors
deriving DecidableEq

class Host (m : Type → Type) where
  working : m Path
  kind? : Path → m (Except FileFault (Option FileKind))
  read : Path → m (Except FileFault Text)
  write : Path → Text → m (Except FileFault Unit)
  makeDirectory : Path → m (Except FileFault Unit)
  /-- Whether a channel shows styles. -/
  styled : Channel → m Bool
  print : Channel → Text → m Unit

namespace Host

variable {m : Type → Type} [Monad m] [Host m]

/-- Prints a text, without its styles where the channel does not show them. -/
def say (channel : Channel) (text : Text) : m Unit := do
  let styled ← styled channel
  print channel (if styled then text else text.unstyled)

def sayLine (channel : Channel) (line : Text) : m Unit :=
  say channel (line ++ "\n")

/-- Makes a directory; `existing` allows that there is one already. -/
def makeLast (existing : Bool) (path : Path) : m (Except FileFailure Unit) := do
  match ← makeDirectory path with
  | .ok () => return .ok ()
  | .error fault =>
      match ← kind? path with
      | .ok (some .directory) =>
          if existing && fault != .missing then return .ok () else
            return .error ⟨fault, path⟩
      | _ => return .error ⟨fault, path⟩

/-- Makes a directory after the missing ones above it. -/
def makeDirectories (existing : Bool) (path : Path) :
    m (Except FileFailure Unit) := do
  match ← makeLast existing path with
  | .error ⟨.missing, _⟩ =>
      if top : path.names = [] then return .error ⟨.missing, path⟩
      else
        have : 0 < path.names.length := List.length_pos_iff.mpr top
        match ← makeDirectories true path.parent with
        | .error failure => return .error failure
        | .ok () => makeLast existing path
  | result => return result
termination_by path.names.length
decreasing_by
  simp only [Path.parent, List.length_dropLast]
  omega

end Host

structure Session where
  files : FileTree
  styled : Bool
  /-- What was printed, the last message first. -/
  printed : List (Channel × Text)

namespace Session

def start (files : FileTree) (styled : Bool) : Session := ⟨files, styled, []⟩

/-- Changes the files, or leaves them as they are after a fault. -/
def update (change : FileTree → Except FileFault FileTree) :
    StateM Session (Except FileFault Unit) :=
  fun session =>
    match change session.files with
    | .ok files => (.ok (), { session with files })
    | .error fault => (.error fault, session)

instance : Host (StateM Session) where
  working := do return Path.absolute (← get).files.working
  kind? path := do return (← get).files.kind? path
  read path := do return (← get).files.read path
  write path text := update (FileTree.write path text)
  makeDirectory path := update (FileTree.makeDirectory path)
  styled _ := do return (← get).styled
  print channel text :=
    modify fun session =>
      { session with printed := (channel, text) :: session.printed }

/-- Everything that was printed on a channel. -/
def transcript (channel : Channel) (session : Session) : Text :=
  (session.printed.reverse.filter fun message => message.1 = channel).flatMap
    Prod.snd

end Session

end TailLoop
