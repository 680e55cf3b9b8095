import TailLoop.Contract.Breach
import TailLoop.Contract.TailGraph

/-!
# Checking programs

A program is inspected before it is lowered: first its declarations, then the
body of every function, and last the program as a whole.  A checker may inspect
several programs in turn; what it knows of earlier ones stays.
-/

namespace TailLoop

/-- The first declaration of a constructor. -/
def findConstructor? (constructors : List Constructor) (name : Name) :
    Option Constructor :=
  constructors.find? fun c => c.name = name

namespace Contract

/-- A breach and the function it was found in. -/
structure Finding where
  place : Option Name
  breach : Breach

def Finding.diagnostic (finding : Finding) : Diagnostic :=
  finding.breach.finding (finding.place.map Name.text)

/-- Each name that stands again after its first place. -/
def repeatedParams (seen : List Name) : List Name → List Breach
  | [] => []
  | param :: params =>
      if param ∈ seen then .repeatedParam param :: repeatedParams seen params
      else repeatedParams (param :: seen) params

def constructorBreaches (constructors : List Constructor) (use : ConstructorUse)
    (name : Name) (count : Nat) : List Breach :=
  match findConstructor? constructors name with
  | none => [.undeclaredConstructor name]
  | some c =>
      if (count : Int) = c.arity then [] else
        [.fieldCount use name count c.arity]

/-- A case analysis has an alternative, and at most one default, which comes
last. -/
def shapeBreaches (alts : List Alt) : List Breach :=
  if alts.isEmpty then [.noAlternatives]
  else if 1 < (alts.filter Alt.isDefault).length then [.severalDefaults]
  else if alts.dropLast.any Alt.isDefault then [.defaultNotLast]
  else []

def patternBreaches (constructors : List Constructor) (alts : List Alt) :
    List Breach :=
  alts.flatMap fun
    | .con ctor args _ =>
        constructorBreaches constructors .pattern ctor args.length
    | _ => []

def targetBreaches : ForeignTarget → List Breach
  | .named _ => []
  | target => [.foreignTarget target]

mutual

/-- The breaches of an expression, those of its root before those of its
parts. -/
def exprBreaches (constructors : List Constructor) : Expr → List Breach
  | .var _ => []
  | .app func args _ =>
      exprBreaches constructors func ++ listBreaches constructors args
  | .lazyApp _ args => listBreaches constructors args
  | .lazy body => exprBreaches constructors body
  | .force body => exprBreaches constructors body
  | .lam params body =>
      repeatedParams [] params ++ exprBreaches constructors body
  | .letIn _ value body =>
      exprBreaches constructors value ++ exprBreaches constructors body
  | .con name args _ =>
      constructorBreaches constructors .application name args.length ++
        listBreaches constructors args
  | .case scrutinee alts =>
      shapeBreaches alts ++ patternBreaches constructors alts ++
        exprBreaches constructors scrutinee ++ altBreaches constructors alts
  | .proj body _ => exprBreaches constructors body
  | .lit _ => []
  | .foreign target args =>
      targetBreaches target ++ listBreaches constructors args
  | .op _ args => listBreaches constructors args
  | .fail _ => []
  | .null => []

def listBreaches (constructors : List Constructor) : List Expr → List Breach
  | [] => []
  | expr :: exprs =>
      exprBreaches constructors expr ++ listBreaches constructors exprs

/-- The breaches in the bodies of alternatives. -/
def altBreaches (constructors : List Constructor) : List Alt → List Breach
  | [] => []
  | .con _ _ body :: alts =>
      exprBreaches constructors body ++ altBreaches constructors alts
  | .const _ body :: alts =>
      exprBreaches constructors body ++ altBreaches constructors alts
  | .default body :: alts =>
      exprBreaches constructors body ++ altBreaches constructors alts

end

mutual

/-- The constructors that an expression builds or matches. -/
@[simp] def exprConstructors : Expr → List Name
  | .var _ => []
  | .app func args _ => exprConstructors func ++ listConstructors args
  | .lazyApp _ args => listConstructors args
  | .lazy body => exprConstructors body
  | .force body => exprConstructors body
  | .lam _ body => exprConstructors body
  | .letIn _ value body => exprConstructors value ++ exprConstructors body
  | .con name args _ => name :: listConstructors args
  | .case scrutinee alts => exprConstructors scrutinee ++ altConstructors alts
  | .proj body _ => exprConstructors body
  | .lit _ => []
  | .foreign _ args => listConstructors args
  | .op _ args => listConstructors args
  | .fail _ => []
  | .null => []

@[simp] def listConstructors : List Expr → List Name
  | [] => []
  | expr :: exprs => exprConstructors expr ++ listConstructors exprs

@[simp] def altConstructors : List Alt → List Name
  | [] => []
  | .con ctor _ body :: alts =>
      ctor :: exprConstructors body ++ altConstructors alts
  | .const _ body :: alts => exprConstructors body ++ altConstructors alts
  | .default body :: alts => exprConstructors body ++ altConstructors alts

end

/-- A self call in tail position passes as many arguments as the function
takes. -/
def selfCallBreaches (function : Function) : List Breach :=
  function.body.tailPositions.flatMap fun
    | .app (.var (.named callee)) args _ =>
        if callee = function.name ∧ args.length ≠ function.params.length then
          [.selfCallCount args.length function.params.length]
        else []
    | _ => []

def functionBreaches (constructors : List Constructor) (function : Function) :
    List Breach :=
  repeatedParams [] function.params ++
    exprBreaches constructors function.body ++ selfCallBreaches function

/-- What a checker knows of the programs it inspected. -/
structure Checker where
  tags : TagTable
  findings : List Finding
  functions : List Function
  constructors : List Constructor
  used : List Name

namespace Checker

def initial : Checker := ⟨.empty, [], [], [], []⟩

def report (findings : List Finding) (checker : Checker) : Checker :=
  { checker with findings := checker.findings ++ findings }

/-- A table that cannot be made leaves the old one. -/
def registerTags (constructors : List Constructor) (checker : Checker) :
    Checker :=
  match TagTable.ofConstructors constructors with
  | .ok tags => { checker with tags := tags }
  | .error conflicts =>
      checker.report (conflicts.map fun conflict =>
        ⟨none, .tagConflict conflict⟩)

/-- Only the first declaration of a name counts. -/
def registerConstructor (checker : Checker) (c : Constructor) : Checker :=
  if (findConstructor? checker.constructors c.name).isSome then checker
  else { checker with constructors := checker.constructors ++ [c] }

def registerFunction (checker : Checker) (function : Function) : Checker :=
  if checker.functions.any fun other => other.name = function.name then
    checker.report [⟨some function.name, .repeatedFunction function.name⟩]
  else { checker with functions := checker.functions ++ [function] }

def inspect (checker : Checker) (function : Function) : Checker :=
  let breaches := functionBreaches checker.constructors function
  let mentioned := exprConstructors function.body
  let declared := mentioned.filter fun name =>
    (findConstructor? checker.constructors name).isSome
  { checker.report (breaches.map fun breach =>
    ⟨some function.name, breach⟩) with
    used := declared ++ checker.used }

def entryFindings (checker : Checker) (entry : Name) : List Finding :=
  if checker.functions.isEmpty || checker.functions.any (fun f =>
    f.name = entry) then []
  else [⟨none, .missingEntry entry⟩]

def cycleFindings (checker : Checker) : List Finding :=
  let graph := TailGraph.ofFunctions checker.functions
  checker.functions.filterMap fun function =>
    (graph.cycle? function.name).map fun path =>
      ⟨some function.name, .tailCycle (function.name :: path)⟩

def unusedFindings (checker : Checker) : List Finding :=
  (checker.constructors.filter fun c => c.name ∉ checker.used).map fun c =>
    ⟨none, .unusedConstructor c.name⟩

def check (checker : Checker) (program : Program) : Checker :=
  let checker := checker.registerTags program.constructors
  let checker := program.constructors.foldl registerConstructor checker
  let checker := program.functions.foldl registerFunction checker
  let checker := program.functions.foldl inspect checker
  checker.report
    (checker.entryFindings program.entry ++ checker.cycleFindings ++
      checker.unusedFindings)

def diagnostics (checker : Checker) : List Diagnostic :=
  checker.findings.map Finding.diagnostic

def hasErrors (checker : Checker) : Bool :=
  checker.diagnostics.any Diagnostic.isError

end Checker

end Contract

end TailLoop
