import TailLoop.Contract.Check
import TailLoop.Script

/-!
# Compiling programs

A program is checked first; its text is written only if it has no error.
-/

namespace TailLoop

/-- Whether a program was compiled, what is said about it, and its text. -/
structure Compiled where
  ok : Bool
  diagnostics : List Diagnostic
  source : Option Text

namespace Compiled

def refused (diagnostics : List Diagnostic) : Compiled :=
  ⟨false, diagnostics, none⟩

/-- The text to deliver. -/
def text? (compiled : Compiled) : Option Text :=
  if compiled.ok then compiled.source else none

end Compiled

def Program.compile (options : ScriptOptions) (program : Program) :
    Except Lowering.Failure Compiled :=
  let checker := Contract.Checker.initial.check program
  let diagnostics := checker.diagnostics
  if checker.hasErrors then .ok (.refused diagnostics)
  else
    match program.script options checker.tags with
    | .ok source => .ok ⟨true, diagnostics, some source⟩
    | .error failure =>
        match failure.fault.diagnostic? failure.function with
        | some diagnostic => .ok (.refused (diagnostics ++ [diagnostic]))
        | none => .error failure

end TailLoop
