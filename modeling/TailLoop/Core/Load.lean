import TailLoop.Core.Decode

/-!
# Loading programs

A program text that cannot be loaded is reported by one error that names its
file.  Two faults lie outside of this: integers too long or too large to be
converted.
-/

namespace TailLoop

namespace Decode.Fault

def ownerLabel : Option Text → Text
  | some kind => "`" ++ kind ++ "` node"
  | none => "object"

def message : Fault → Text
  | .missingField name owner =>
      "missing field `" ++ name ++ "` in " ++ ownerLabel owner
  | .wrongType name owner =>
      "field `" ++ name ++ "` of " ++ ownerLabel owner ++ " has the wrong type"
  | .expectedObject part => "expected an object for " ++ part.label
  | .expectedName found => "expected a name, got " ++ found
  | .namespaceParts => "namespace parts must be strings"
  | .machineName => "machine name must be [index, text]"
  | .charLength found =>
      "char constant must be one character, got " ++ Text.quoted found
  | .unknown choice found => "unknown " ++ choice.label ++ " `" ++ found ++ "`"
  | .floatRange => "int too large to convert to float"

/-- The code under which a fault is reported. -/
def code? : Fault → Option Text
  | .unknown _ _ => some "E003"
  | .floatRange => none
  | _ => some "E002"

def diagnostic? (file : Text) (fault : Fault) : Option Diagnostic :=
  fault.code?.map fun code => ⟨.error, code, fault.message, some file, []⟩

end Decode.Fault

inductive LoadFault where
  | malformed (cause : Json.Malformed) (line column : Nat)
  | illFormed (fault : Decode.Fault)
  | digitLimit (count : Nat)
deriving DecidableEq

namespace LoadFault

def message : LoadFault → Text
  | .malformed cause line column =>
      "invalid JSON at line " ++ Text.ofNat line ++ ", column " ++
        Text.ofNat column ++ ": " ++ cause.message
  | .illFormed fault => fault.message
  | .digitLimit count =>
      "Exceeds the limit (" ++ Text.ofNat Json.digitLimit ++
        " digits) for integer string conversion: value has " ++
          Text.ofNat count ++
        " digits; use sys.set_int_max_str_digits() to increase the limit"

def diagnostic? (file : Text) : LoadFault → Option Diagnostic
  | .malformed cause line column =>
      some ⟨.error, "E001", message (.malformed cause line column), some file,
        []⟩
  | .illFormed fault => fault.diagnostic? file
  | .digitLimit _ => none

end LoadFault

/-- Reads a document, without looking at what it says. -/
def Json.load (text : Text) : Except LoadFault Json :=
  match Json.read text with
  | .ok value => .ok value
  | .error (.malformed cause position) =>
      let (line, column) := Json.lineColumn text position
      .error (.malformed cause line column)
  | .error (.digitLimit count) => .error (.digitLimit count)

def Program.load (text : Text) : Except LoadFault Program :=
  match Json.load text with
  | .error fault => .error fault
  | .ok document => (Decode.program document).mapError .illFormed

end TailLoop
