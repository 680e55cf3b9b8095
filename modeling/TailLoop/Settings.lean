import TailLoop.Core.Load
import TailLoop.Script
import TailLoop.Text.Integer
import TailLoop.Toml.Reader

/-!
# Project settings

The settings file of a project has three sections.  Values keep the type they
are written with; only the number of jobs is converted, and is at least one.
-/

namespace TailLoop

structure Settings where
  name : Json
  version : Json
  source : Json
  output : Json
  jobs : Int
  trace : Json
  comments : Json

namespace Settings

def standard : Settings where
  name := .str "untitled"
  version := .str "0.0.0"
  source := .str "program.ir.json"
  output := .str "build/program.py"
  jobs := 1
  trace := .bool false
  comments := .bool true

inductive Fault where
  | document (fault : Toml.Fault)
  | notTable
  | infiniteJobs
  | undefinedJobs
  | jobsText (text : Text)
  | jobsDigits (count : Nat)
  | jobsType
deriving DecidableEq

/-- At most so much of a quoted text stands in a message. -/
def quotedWidth : Nat := 200

def Fault.message : Fault → Text
  | .document .malformed => "malformed settings file"
  | .document (.digitLimit count) => LoadFault.message (.digitLimit count)
  | .notTable => "section is not a table"
  | .infiniteJobs => "cannot convert float infinity to integer"
  | .undefinedJobs => "cannot convert float NaN to integer"
  | .jobsText text =>
      "invalid literal for int() with base 10: " ++
        (Text.quoted text).take quotedWidth
  | .jobsDigits count => LoadFault.message (.digitLimit count)
  | .jobsType => "jobs is not a number"

/-- The number of jobs a value stands for; a fraction is cut off. -/
def jobCount : Json → Except Fault Int
  | .int value => .ok value
  | .bool value => .ok (if value then 1 else 0)
  | .float .nan => .error .undefinedJobs
  | .float (.infinite _) => .error .infiniteJobs
  | .float value =>
      match value.truncate? with
      | some whole => .ok whole
      | none => .error .undefinedJobs
  | .str text =>
      match Text.toInt text with
      | .ok value => .ok value
      | .error .invalid => .error (.jobsText text)
      | .error (.digitLimit count) => .error (.jobsDigits count)
  | _ => .error .jobsType

/-- The members of a section; none if it is missing. -/
def sectionOf (name : Text) (document : Toml.Table) : Except Fault Toml.Table :=
  match Json.find? name document with
  | none => .ok []
  | some (.obj members) => .ok members
  | some _ => .error .notTable

def valueOr (default : Json) (name : Text) (members : Toml.Table) : Json :=
  (Json.find? name members).getD default

def ofDocument (document : Toml.Table) : Except Fault Settings := do
  let package ← sectionOf "package" document
  let build ← sectionOf "build" document
  let jobs ← jobCount (valueOr (.int standard.jobs) "jobs" build)
  let codegen ← sectionOf "codegen" document
  return {
    name := valueOr standard.name "name" package
    version := valueOr standard.version "version" package
    source := valueOr standard.source "source" build
    output := valueOr standard.output "output" build
    jobs := max 1 jobs
    trace := valueOr standard.trace "trace" codegen
    comments := valueOr standard.comments "comments" codegen }

def read (text : Text) : Except Fault Settings :=
  match Toml.read text with
  | .error fault => .error (.document fault)
  | .ok document => ofDocument document

/-- The name of the project as it is shown to the user. -/
def shownName? (settings : Settings) : Option Text :=
  if settings.name.isWithin Json.digitLimit then
    some settings.name.bareText else none

/-- How the settings want the program to be written. -/
def options (settings : Settings) : ScriptOptions :=
  ⟨settings.trace.truth, settings.comments.truth⟩

end Settings

end TailLoop
