import TailLoop.Text.Basic

/-!
# Primitive operations
-/

namespace TailLoop

/-- The kinds of numbers an operation works on. -/
inductive NumKind where
  | int
  | bigInt
  | float
  | char
deriving DecidableEq

namespace NumKind

def text : NumKind → Text
  | .int => "int"
  | .bigInt => "bigint"
  | .float => "float"
  | .char => "char"

def all : List NumKind := [.int, .bigInt, .float, .char]

def ofText? (text : Text) : Option NumKind :=
  all.find? fun kind => kind.text = text

end NumKind

inductive PrimOp where
  | plus
  | minus
  | times
  | udiv
  | sdiv
  | urem
  | srem
  | and
  | or
  | xor
  | compl
  | shl
  | lshr
  | ashr
  | eq
  | lt
  | le
  | gt
  | ge
  | slt
  | sle
  | sgt
  | sge
  | sext
  | zext
  | trunc
  | intFloat
  | floatInt
  | intStr
  | strInt
  | floatStr
  | strFloat
  | chInt
  | intCh
  | strConcat
  | strLt
  | strEq
  | strLen
  | strHead
  | strTail
  | strCons
  | strIndex
  | strRev
  | strSubstr
  | readStr
  | writeStr
  | systemInfo
  | noOp
deriving DecidableEq

namespace PrimOp

def text : PrimOp → Text
  | .plus => "plus"
  | .minus => "minus"
  | .times => "times"
  | .udiv => "udiv"
  | .sdiv => "sdiv"
  | .urem => "urem"
  | .srem => "srem"
  | .and => "and"
  | .or => "or"
  | .xor => "xor"
  | .compl => "compl"
  | .shl => "shl"
  | .lshr => "lshr"
  | .ashr => "ashr"
  | .eq => "eq"
  | .lt => "lt"
  | .le => "le"
  | .gt => "gt"
  | .ge => "ge"
  | .slt => "slt"
  | .sle => "sle"
  | .sgt => "sgt"
  | .sge => "sge"
  | .sext => "sext"
  | .zext => "zext"
  | .trunc => "trunc"
  | .intFloat => "int_float"
  | .floatInt => "float_int"
  | .intStr => "int_str"
  | .strInt => "str_int"
  | .floatStr => "float_str"
  | .strFloat => "str_float"
  | .chInt => "ch_int"
  | .intCh => "int_ch"
  | .strConcat => "str_concat"
  | .strLt => "str_lt"
  | .strEq => "str_eq"
  | .strLen => "str_len"
  | .strHead => "str_head"
  | .strTail => "str_tail"
  | .strCons => "str_cons"
  | .strIndex => "str_index"
  | .strRev => "str_rev"
  | .strSubstr => "str_substr"
  | .readStr => "read_str"
  | .writeStr => "write_str"
  | .systemInfo => "system_info"
  | .noOp => "no_op"

def all : List PrimOp :=
  [.plus, .minus, .times, .udiv, .sdiv, .urem, .srem, .and, .or, .xor, .compl,
    .shl, .lshr, .ashr, .eq, .lt, .le, .gt, .ge, .slt, .sle, .sgt, .sge, .sext,
    .zext, .trunc, .intFloat, .floatInt, .intStr, .strInt, .floatStr, .strFloat,
    .chInt, .intCh, .strConcat, .strLt, .strEq, .strLen, .strHead, .strTail,
    .strCons, .strIndex, .strRev, .strSubstr, .readStr, .writeStr, .systemInfo,
    .noOp]

def ofText? (text : Text) : Option PrimOp :=
  all.find? fun op => op.text = text

end PrimOp

/-- An operation known here, or one that is only named. -/
inductive Prim where
  | standard (op : PrimOp) (kind : NumKind)
  | external (name : Text) (kind : NumKind)
deriving DecidableEq

namespace Prim

def externalText : Text := "external"

def kind : Prim → NumKind
  | .standard _ kind => kind
  | .external _ kind => kind

def text : Prim → Text
  | .standard op kind => op.text ++ ":" ++ kind.text
  | .external name _ => externalText ++ " " ++ name

end Prim

end TailLoop
