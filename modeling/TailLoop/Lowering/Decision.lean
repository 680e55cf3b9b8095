import TailLoop.Lowering.Basic
import TailLoop.Lowering.Leaf

/-!
# Decisions

A case analysis becomes a chain of tests in the order of its alternatives.  A
wide analysis of constructors with a default becomes a balanced tree of
comparisons of tags, whose leaves are chains of at most three tests.  Every
clause assigns the same result.
-/

namespace TailLoop

/-- What an alternative matches, and the names it binds. -/
inductive Pattern where
  | con (ctor : Name) (args : List Name)
  | const (const : Const)
  | default
deriving DecidableEq

def Pattern.isDefault : Pattern → Bool
  | .default => true
  | _ => false

def Alt.pattern : Alt → Pattern
  | .con ctor args _ => .con ctor args
  | .const value _ => .const value
  | .default _ => .default

namespace Lowering

/-- An alternative whose body is still to be lowered. -/
structure Branch where
  pattern : Pattern
  body : Lowering Code.Term

/-- The most tests in a chain at a leaf of a decision tree. -/
def groupSize : Nat := 3

/-- A wide analysis of constructors that ends in a default: at least two full
groups. -/
def usesTree (patterns : List Pattern) : Bool :=
  match patterns.reverse with
  | .default :: rest =>
      decide (2 * groupSize ≤ rest.length) && rest.all fun
        | .con .. => true
        | _ => false
  | _ => false

def guardOf (context : Context) : Pattern → Lowering Code.Guard
  | .con ctor _ => do
      let tag ← tagOf context ctor
      return .hasTag tag ctor
  | .const const => return .equals const.term
  | .default => return .otherwise

/-- Binds the fields of the subject. -/
def bindFields (subject : Var) : Pattern → Lowering Unit
  | .con _ (arg :: args) => do
      emit (.unpack (arg :: args) subject)
      declare (arg :: args)
  | _ => return ()

def clause (context : Context) (subject result : Var) (branch : Branch) :
    Lowering Code.Clause := do
  let guard ← guardOf context branch.pattern
  let (_, body) ← suite do
    bindFields subject branch.pattern
    assign result (← branch.body)
  return .mk guard body

def clauses (context : Context) (subject result : Var) :
    List Branch → Lowering (List Code.Clause)
  | [] => return []
  | branch :: branches => do
      let first ← clause context subject result branch
      let rest ← clauses context subject result branches
      return first :: rest

/-- A chain of tests.  Where no default comes last, all other values are
unreachable. -/
def emitChain (context : Context) (subject result : Var)
    (branches : List Branch) :
    Lowering Unit := do
  let tests ← clauses context subject result branches
  match branches.getLast? with
  | none => fail .noClauses
  | some last =>
      let others := if last.pattern.isDefault then [] else
        [.mk .otherwise [.unreachable]]
      emit (.branch subject (tests ++ others))

def chain (context : Context) (subject : Var) (branches : List Branch) :
    Lowering Code.Term := do
  let result ← fresh
  emitChain context subject result branches
  return .var result

/-- The branches with their tags; a repeated tag can never be selected. -/
def tagged (context : Context) (seen : List Int) :
    List Branch → Lowering (List (Int × Branch))
  | [] => return []
  | branch :: branches =>
      match branch.pattern with
      | .con ctor _ => do
          let tag ← tagOf context ctor
          if tag ∈ seen then tagged context seen branches
          else return (tag, branch) :: (← tagged context (tag :: seen) branches)
      | _ => fail .notConstructors

/-- Separates a default at the end. -/
def splitDefault (branches : List Branch) : List Branch × Option Branch :=
  match branches.getLast? with
  | some last =>
      if last.pattern.isDefault then (branches.dropLast, some last) else
        (branches, none)
  | none => (branches, none)

/-- Halves the branches until a group fits into a chain. -/
def emitTree (context : Context) (subject result : Var)
    (default : Option Branch) (branches : List (Int × Branch)) :
    Lowering Unit :=
  if wide : groupSize < branches.length then
    have inside : branches.length / 2 < branches.length := by
      simp only [groupSize] at wide
      omega
    let pivot := branches[branches.length / 2].1
    do
      let (_, low) ← suite
        (emitTree context subject result default
          (branches.take (branches.length / 2)))
      let (_, high) ← suite
        (emitTree context subject result default
          (branches.drop (branches.length / 2)))
      emit (.branch subject [.mk (.tagBelow pivot) low, .mk .otherwise high])
  else
    emitChain context subject result (branches.map Prod.snd ++ default.toList)
termination_by branches.length
decreasing_by
  · simp only [List.length_take]
    omega
  · simp only [groupSize] at wide
    simp only [List.length_drop]
    omega

def tree (context : Context) (subject : Var) (branches : List Branch) :
    Lowering Code.Term := do
  let (constructors, default) := splitDefault branches
  let tagged ← tagged context [] constructors
  let sorted := tagged.mergeSort fun left right => decide (left.1 ≤ right.1)
  let result ← fresh
  emitTree context subject result default sorted
  return .var result

/-- There is an alternative, and no default before the last one. -/
def checkShape (branches : List Branch) : Lowering Unit :=
  if branches.isEmpty then refuse .noAlternatives
  else if branches.dropLast.any fun branch => branch.pattern.isDefault then
    refuse .defaultNotLast
  else return ()

/-- The decision of a case analysis; a lone default needs none. -/
def decision (context : Context) (subject : Var) (branches : List Branch) :
    Lowering Code.Term := do
  checkShape branches
  match branches with
  | [⟨.default, body⟩] => body
  | branches =>
      if usesTree (branches.map Branch.pattern) then
        tree context subject branches
      else chain context subject branches

end Lowering

end TailLoop
