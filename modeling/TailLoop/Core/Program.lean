import TailLoop.Core.Expr

/-!
# Programs
-/

namespace TailLoop

structure Function where
  name : Name
  params : List Name
  body : Expr

/-- A constructor; without a tag it gets one from the tag table. -/
structure Constructor where
  name : Name
  arity : Int
  tag : Option Int
deriving DecidableEq

inductive Declaration where
  | function (function : Function)
  | constructor (constructor : Constructor)

structure Program where
  declarations : List Declaration
  entry : Name

namespace Declaration

def function? : Declaration → Option Function
  | .function f => some f
  | .constructor _ => none

def constructor? : Declaration → Option Constructor
  | .function _ => none
  | .constructor c => some c

end Declaration

namespace Program

def functions (program : Program) : List Function :=
  program.declarations.filterMap Declaration.function?

def constructors (program : Program) : List Constructor :=
  program.declarations.filterMap Declaration.constructor?

end Program

end TailLoop
