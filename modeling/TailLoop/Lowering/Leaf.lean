import TailLoop.Code.Basic
import TailLoop.Core.Const
import TailLoop.Core.Prim

/-!
# Constants and primitive operations
-/

namespace TailLoop

/-- A constant as a term that evaluates to it, or fails if the target has
none. -/
def Const.term (const : Const) : Code.Term :=
  match const with
  | .int value => .int value
  | .bigInt value => .int value
  | .float value => .float value
  | .char value => .str [value]
  | .string value => .str value
  | .world => .raise ("unimplemented constant: " ++ const.text)
  | .type => .raise ("unimplemented constant: " ++ const.text)

namespace PrimOp

open Code (BinaryOp CompareOp UnaryOp)

def binary? (kind : NumKind) : PrimOp → Option BinaryOp
  | .plus => some .add
  | .minus => some .sub
  | .times => some .mul
  | .urem => some .mod
  | .srem => some .mod
  | .strConcat => some .add
  | .strCons => some .add
  | .udiv => some (if kind = .float then .div else .floorDiv)
  | .sdiv => some (if kind = .float then .div else .floorDiv)
  | _ => none

def compare? : PrimOp → Option CompareOp
  | .eq => some .eq
  | .lt => some .lt
  | .le => some .le
  | .gt => some .gt
  | .ge => some .ge
  | .slt => some .lt
  | .sle => some .le
  | .sgt => some .gt
  | .sge => some .ge
  | .strEq => some .eq
  | .strLt => some .lt
  | _ => none

def unary? : PrimOp → Option UnaryOp
  | .intStr => some .toStr
  | .strInt => some .toInt
  | .strRev => some .reversed
  | .strHead => some .first
  | .strTail => some .rest
  | _ => none

/-- Changes of width mean nothing for unbounded integers. -/
def isWidthChange : PrimOp → Bool
  | .sext => true
  | .zext => true
  | .trunc => true
  | _ => false

/-- An operation on two values. -/
def binaryTerm? (op : PrimOp) (kind : NumKind) (left right : Code.Term) :
    Option Code.Term :=
  match op.binary? kind with
  | some binary => some (.binary binary left right)
  | none => op.compare?.map (.compare · left right)

/-- An operation on one value. -/
def unaryTerm? (op : PrimOp) (arg : Code.Term) : Option Code.Term :=
  if op.isWidthChange then some arg else op.unary?.map (.unary · arg)

/-- An operation on a terminal.  The text is the last argument: a world may come
before. -/
def terminalTerm? (op : PrimOp) (args : List Code.Term) : Option Code.Term :=
  match op with
  | .readStr => some .readLine
  | .writeStr => args.getLast?.map .write
  | _ => none

end PrimOp

/-- The external operations the target knows. -/
def externalTerm (name : Text) : Code.Term :=
  if name = "prim__null" then .none else
    .raise ("unimplemented external: " ++ name)

/-- An operation on values; it fails where the target has none of this form. -/
def Prim.term (prim : Prim) (args : List Code.Term) : Code.Term :=
  match prim with
  | .external name _ => externalTerm name
  | .standard op kind =>
      let direct :=
        match args with
        | [arg] => op.unaryTerm? arg
        | [left, right] => op.binaryTerm? kind left right
        | _ => none
      match direct with
      | some term => term
      | none => (op.terminalTerm? args).getD (.unsupported prim args)

end TailLoop
