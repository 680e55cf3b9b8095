import TailLoop.Core.Const
import TailLoop.Core.Foreign
import TailLoop.Core.Name
import TailLoop.Core.Prim

/-!
# Expressions

The source language: a strict functional language after closure conversion, with
explicit laziness, tagged constructors and calls of foreign functions.
-/

namespace TailLoop

mutual

inductive Expr where
  | var (var : Var)
  /-- An application; `tail` asks for a restart where the callee is the function
  itself. -/
  | app (func : Expr) (args : List Expr) (tail : Bool)
  /-- A call of a named function that waits until it is forced. -/
  | lazyApp (name : Name) (args : List Expr)
  | lazy (body : Expr)
  | force (body : Expr)
  | lam (params : List Name) (body : Expr)
  | letIn (name : Name) (value : Expr) (body : Expr)
  /-- A constructed value; the tag is only a remark of whoever wrote the
  program. -/
  | con (name : Name) (args : List Expr) (tag : Option Int)
  | case (scrutinee : Expr) (alts : List Alt)
  | proj (body : Expr) (index : Int)
  | lit (const : Const)
  | foreign (target : ForeignTarget) (args : List Expr)
  | op (prim : Prim) (args : List Expr)
  | fail (message : Text)
  | null

inductive Alt where
  | con (ctor : Name) (args : List Name) (body : Expr)
  | const (const : Const) (body : Expr)
  | default (body : Expr)

end

namespace Alt

def body : Alt → Expr
  | .con _ _ body => body
  | .const _ body => body
  | .default body => body

/-- The names a pattern binds in its body. -/
def binders : Alt → List Name
  | .con _ args _ => args
  | _ => []

def isDefault : Alt → Bool
  | .default _ => true
  | _ => false

def isCon : Alt → Bool
  | .con .. => true
  | _ => false

end Alt

namespace Expr

instance : Inhabited Expr := ⟨.null⟩

/-- The direct parts of an expression, in the order of their evaluation. -/
def children : Expr → List Expr
  | .app func args _ => func :: args
  | .lazyApp _ args => args
  | .lazy body => [body]
  | .force body => [body]
  | .lam _ body => [body]
  | .letIn _ value body => [value, body]
  | .con _ args _ => args
  | .case scrutinee alts => scrutinee :: alts.map Alt.body
  | .proj body _ => [body]
  | .foreign _ args => args
  | .op _ args => args
  | .var _ | .lit _ | .fail _ | .null => []

def isVar : Expr → Bool
  | .var _ => true
  | _ => false

/-- The word for the form of an expression. -/
def label : Expr → Text
  | .var _ => "Var"
  | .app .. => "App"
  | .lazyApp .. => "LazyApp"
  | .lazy _ => "Lazy"
  | .force _ => "Force"
  | .lam .. => "Lam"
  | .letIn .. => "Let"
  | .con .. => "Con"
  | .case .. => "Case"
  | .proj .. => "Proj"
  | .lit _ => "Lit"
  | .foreign .. => "Foreign"
  | .op .. => "Op"
  | .fail _ => "Fail"
  | .null => "Null"

end Expr

end TailLoop
