import TailLoop.Core.Expr

/-!
# Tail positions

An expression is in tail position if only the bodies of bindings and the
branches of case analyses lead to it.  A call of the function itself at such a
place can restart the function; all other calls return to where they stand.
-/

namespace TailLoop.Expr

/-- A direct application of the named function. -/
def isSelfCall (name : Name) : Expr → Bool
  | .app (.var (.named callee)) _ _ => callee == name
  | _ => false

def isTailCall : Expr → Bool
  | .app _ _ tail => tail
  | _ => false

mutual

/-- The expressions in tail position, from left to right. -/
@[simp] def tailPositions : Expr → List Expr
  | .letIn _ _ body => tailPositions body
  | .case _ alts => tailPositionsAlts alts
  | expr => [expr]

@[simp] def tailPositionsAlts : List Alt → List Expr
  | [] => []
  | .con _ _ body :: alts => tailPositions body ++ tailPositionsAlts alts
  | .const _ body :: alts => tailPositions body ++ tailPositionsAlts alts
  | .default body :: alts => tailPositions body ++ tailPositionsAlts alts

end

/-- A flagged call of the named function stands in tail position. -/
def hasSelfTailCall (name : Name) (body : Expr) : Bool :=
  body.tailPositions.any fun leaf => leaf.isSelfCall name && leaf.isTailCall

def calleeName? : Expr → Option Name
  | .app (.var (.named callee)) _ _ => some callee
  | _ => none

/-- The named functions that are applied in tail position. -/
def tailCallees (body : Expr) : List Name :=
  body.tailPositions.filterMap calleeName?

mutual

/-- Clears the flag of every application. -/
@[simp] def unmarked : Expr → Expr
  | .var v => .var v
  | .app func args _ => .app (unmarked func) (unmarkedList args) false
  | .lazyApp name args => .lazyApp name (unmarkedList args)
  | .lazy body => .lazy (unmarked body)
  | .force body => .force (unmarked body)
  | .lam params body => .lam params (unmarked body)
  | .letIn name value body => .letIn name (unmarked value) (unmarked body)
  | .con name args tag => .con name (unmarkedList args) tag
  | .case scrutinee alts => .case (unmarked scrutinee) (unmarkedAlts alts)
  | .proj body index => .proj (unmarked body) index
  | .lit const => .lit const
  | .foreign target args => .foreign target (unmarkedList args)
  | .op prim args => .op prim (unmarkedList args)
  | .fail message => .fail message
  | .null => .null

@[simp] def unmarkedList : List Expr → List Expr
  | [] => []
  | expr :: exprs => unmarked expr :: unmarkedList exprs

@[simp] def unmarkedAlts : List Alt → List Alt
  | [] => []
  | .con ctor args body :: alts =>
      .con ctor args (unmarked body) :: unmarkedAlts alts
  | .const const body :: alts =>
      .const const (unmarked body) :: unmarkedAlts alts
  | .default body :: alts => .default (unmarked body) :: unmarkedAlts alts

end

mutual

/-- Flags the calls of the named function in tail position and clears the flags
of all applications elsewhere.  Other applications in tail position keep
theirs. -/
@[simp] def marked (name : Name) : Expr → Expr
  | .letIn binder value body =>
      .letIn binder (unmarked value) (marked name body)
  | .case scrutinee alts => .case (unmarked scrutinee) (markedAlts name alts)
  | .app func args tail =>
      .app (unmarked func) (unmarkedList args)
        (isSelfCall name (.app func args tail) || tail)
  | expr => unmarked expr

@[simp] def markedAlts (name : Name) : List Alt → List Alt
  | [] => []
  | .con ctor args body :: alts =>
      .con ctor args (marked name body) :: markedAlts name alts
  | .const const body :: alts =>
      .const const (marked name body) :: markedAlts name alts
  | .default body :: alts => .default (marked name body) :: markedAlts name alts

end

end TailLoop.Expr
