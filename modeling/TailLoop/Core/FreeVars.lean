import TailLoop.Core.Expr

/-!
# Free variables

Parameters scope over the body of their function, a bound name over the body of
its binding, and the arguments of a pattern over its own alternative.  Slots are
never bound.
-/

namespace TailLoop.Expr

mutual

/-- The free occurrences of variables from left to right, below the given
binders. -/
@[simp] def occurrences (bound : List Name) : Expr → List Var
  | .var (.slot index) => [.slot index]
  | .var (.named name) => if name ∈ bound then [] else [.named name]
  | .app func args _ => occurrences bound func ++ occurrencesList bound args
  | .lazyApp name args =>
      (if name ∈ bound then [] else [.named name]) ++ occurrencesList bound args
  | .lazy body => occurrences bound body
  | .force body => occurrences bound body
  | .lam params body => occurrences (params ++ bound) body
  | .letIn name value body =>
      occurrences bound value ++ occurrences (name :: bound) body
  | .con _ args _ => occurrencesList bound args
  | .case scrutinee alts =>
      occurrences bound scrutinee ++ occurrencesAlts bound alts
  | .proj body _ => occurrences bound body
  | .lit _ => []
  | .foreign _ args => occurrencesList bound args
  | .op _ args => occurrencesList bound args
  | .fail _ => []
  | .null => []

@[simp] def occurrencesList (bound : List Name) : List Expr → List Var
  | [] => []
  | expr :: exprs => occurrences bound expr ++ occurrencesList bound exprs

@[simp] def occurrencesAlts (bound : List Name) : List Alt → List Var
  | [] => []
  | .con _ args body :: alts =>
      occurrences (args ++ bound) body ++ occurrencesAlts bound alts
  | .const _ body :: alts =>
      occurrences bound body ++ occurrencesAlts bound alts
  | .default body :: alts =>
      occurrences bound body ++ occurrencesAlts bound alts

end

/-- The free variables of an expression, each at its first occurrence. -/
def freeVars (expr : Expr) : List Var :=
  (occurrences [] expr).eraseDups

end TailLoop.Expr
