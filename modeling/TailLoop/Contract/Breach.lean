import TailLoop.Core.Foreign
import TailLoop.TagTable

/-!
# Breaches

What can be wrong with a program that was read, and what deserves a warning.
-/

namespace TailLoop

/-- The places where a constructor stands with its fields. -/
inductive ConstructorUse where
  | application
  | pattern
deriving DecidableEq

def ConstructorUse.label : ConstructorUse → Text
  | .application => "constructor application"
  | .pattern => "pattern"

inductive Breach where
  | repeatedFunction (name : Name)
  | tagConflict (conflict : TagTable.Conflict)
  | repeatedParam (name : Name)
  | noAlternatives
  | severalDefaults
  | defaultNotLast
  | undeclaredConstructor (name : Name)
  | fieldCount (use : ConstructorUse) (name : Name) (count : Nat) (arity : Int)
  | selfCallCount (count params : Nat)
  | foreignTarget (target : ForeignTarget)
  | missingEntry (name : Name)
  | tailCycle (path : List Name)
  | unusedConstructor (name : Name)

namespace Breach

def severity : Breach → Severity
  | .tailCycle _ => .warning
  | .unusedConstructor _ => .warning
  | _ => .error

def code : Breach → Text
  | .repeatedFunction _ => "E101"
  | .tagConflict _ => "E102"
  | .repeatedParam _ => "E103"
  | .noAlternatives => "E201"
  | .severalDefaults => "E202"
  | .defaultNotLast => "E202"
  | .undeclaredConstructor _ => "E203"
  | .fieldCount .. => "E204"
  | .selfCallCount .. => "E206"
  | .foreignTarget _ => "E301"
  | .missingEntry _ => "E401"
  | .tailCycle _ => "W310"
  | .unusedConstructor _ => "W320"

def message : Breach → Text
  | .repeatedFunction name =>
      "function `" ++ name.text ++ "` is defined more than once"
  | .tagConflict conflict => conflict.message
  | .repeatedParam name =>
      "parameter `" ++ name.text ++ "` is bound more than once"
  | .noAlternatives => "case analysis has no alternatives"
  | .severalDefaults => "case analysis has more than one default alternative"
  | .defaultNotLast => "default alternative must be the last one"
  | .undeclaredConstructor name =>
      "constructor `" ++ name.text ++ "` is not declared"
  | .fieldCount use name count arity =>
      use.label ++ " of `" ++ name.text ++ "` has " ++ Text.ofNat count ++
        " field(s), declared arity is " ++ Text.ofInt arity
  | .selfCallCount count params =>
      "self call passes " ++ Text.ofNat count ++
        " argument(s), function takes " ++ Text.ofNat params
  | .foreignTarget target => "unrecognised foreign descriptor " ++ target.text
  | .missingEntry name => "entry point `" ++ name.text ++ "` is not defined"
  | .tailCycle path =>
      "mutual tail recursion is not turned into a loop: " ++
        Text.join " -> " (path.map Name.text)
  | .unusedConstructor name =>
      "constructor `" ++ name.text ++ "` is declared but never used"

def notes : Breach → List Text
  | .defaultNotLast => ["alternatives after the default can never be selected"]
  | .foreignTarget _ => ["only named foreign functions can be called"]
  | .tailCycle _ =>
      ["only a function calling itself in tail position reuses its frame"]
  | _ => []

/-- A breach found by inspection, with its notes. -/
def finding (place : Option Text) (breach : Breach) : Diagnostic :=
  ⟨breach.severity, breach.code, breach.message, place, breach.notes⟩

/-- A breach that stopped the work on a function; it carries no notes. -/
def refusal (place : Text) (breach : Breach) : Diagnostic :=
  ⟨.error, breach.code, breach.message, some place, []⟩

end Breach

end TailLoop
