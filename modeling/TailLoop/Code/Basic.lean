import TailLoop.Core.Name
import TailLoop.Core.Prim
import TailLoop.Number.Double

/-!
# Target code

Terms stand for values and statements prepare them.  A constructed value is a
tuple whose first item is the tag; a function is a loop, so that `continue`
restarts it.
-/

namespace TailLoop.Code

inductive BinaryOp where
  | add
  | sub
  | mul
  | mod
  | div
  | floorDiv
deriving DecidableEq

inductive CompareOp where
  | eq
  | lt
  | le
  | gt
  | ge
deriving DecidableEq

inductive UnaryOp where
  | toStr
  | toInt
  | reversed
  | first
  | rest
deriving DecidableEq

inductive Term where
  | var (var : Var)
  | int (value : Int)
  | float (value : Double)
  | str (value : Text)
  | none
  /-- The value of a call that restarted the function; there is none. -/
  | restart
  /-- A call that fails with a message. -/
  | raise (message : Text)
  /-- Code that is given as text, such as the name of a foreign function. -/
  | verbatim (source : Text)
  | paren (body : Term)
  | call (callee : Term) (args : List Term)
  | tuple (items : List Term)
  | item (body : Term) (index : Int)
  | binary (op : BinaryOp) (left right : Term)
  | compare (op : CompareOp) (left right : Term)
  | unary (op : UnaryOp) (arg : Term)
  | readLine
  | write (arg : Term)
  /-- An operation without code fails and names its arguments. -/
  | unsupported (prim : Prim) (args : List Term)
  /-- A function without parameters.  Frozen variables keep their present
  values. -/
  | thunk (frozen : List Var) (body : Term)
  | lambda (param : Name) (frozen : List Var) (body : Term)

/-- What is asked of the subject of a case analysis. -/
inductive Guard where
  | hasTag (tag : Int) (ctor : Name)
  | equals (value : Term)
  | tagBelow (tag : Int)
  | otherwise

mutual

inductive Stmt where
  | assign (target : Var) (value : Term)
  /-- Binds the fields of a constructed value. -/
  | unpack (targets : List Name) (subject : Var)
  /-- Assigns all values at once. -/
  | rebind (targets : List Name) (values : List Term)
  | continue
  | unreachable
  /-- Runs the first clause whose guard holds of the subject. -/
  | branch (subject : Var) (clauses : List Clause)
  | define (name : Var) (params : List Name) (frozen : List Var)
      (body : List Stmt) (result : Term)

inductive Clause where
  | mk (guard : Guard) (body : List Stmt)

end

/-- Statements and the value they prepare. -/
structure Block where
  statements : List Stmt
  value : Term

def Term.isRestart : Term → Bool
  | .restart => true
  | _ => false

end TailLoop.Code
