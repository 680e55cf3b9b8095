/-!
# Binary64 numbers

The numbers of the IEEE 754 format with 53 significant bits, kept as a sign, a
mantissa and an exponent of two.  Conversions round to the nearest number, a
half going to the even mantissa.
-/

namespace TailLoop

/-- The integer nearest to a quotient; a half goes to the even neighbour. -/
def roundDiv (numerator denominator : Nat) : Nat :=
  let quotient := numerator / denominator
  let twice := 2 * (numerator % denominator)
  if twice < denominator then quotient
  else if denominator < twice then quotient + 1
  else quotient + quotient % 2

/-- A binary64 number.  A finite one is `mantissa * 2 ^ exponent`, where the
mantissa has 53 bits, or fewer at the least exponent. -/
inductive Double where
  | nan
  | infinite (negative : Bool)
  | finite (negative : Bool) (mantissa : Nat) (exponent : Int)
deriving DecidableEq

namespace Double

def leastExponent : Int := -1074

def greatestExponent : Int := 971

def zero (negative : Bool) : Double :=
  .finite negative 0 leastExponent

/-- The quotient over a power of two, rounded. -/
def scaled (numerator denominator : Nat) : Int → Nat
  | .ofNat power => roundDiv numerator (denominator * Nat.pow 2 power)
  | .negSucc power => roundDiv (numerator * Nat.pow 2 (power + 1)) denominator

/-- The exponent at which a quotient has a mantissa of 53 bits. -/
def exponentFor (numerator denominator : Nat) : Int :=
  let low : Int := (numerator.log2 : Int) - denominator.log2 - 53
  let whole : Nat :=
    match low with
    | .ofNat power => numerator / (denominator * Nat.pow 2 power)
    | .negSucc power => numerator * Nat.pow 2 (power + 1) / denominator
  if whole < Nat.pow 2 53 then low else low + 1

/-- The number nearest to a quotient; infinite beyond the greatest finite
number. -/
def ofRatio (negative : Bool) (numerator denominator : Nat) : Double :=
  if numerator = 0 then zero negative
  else
    let exponent := max (exponentFor numerator denominator) leastExponent
    let mantissa := scaled numerator denominator exponent
    let (mantissa, exponent) :=
      if mantissa = Nat.pow 2 53 then (Nat.pow 2 52, exponent + 1) else
        (mantissa, exponent)
    if greatestExponent < exponent then .infinite negative
    else .finite negative mantissa exponent

/-- The number nearest to `digits * 10 ^ exponent`.  Exponents that decide the
answer on their own are not computed with. -/
def ofDecimal (negative : Bool) (digits : Nat) (exponent : Int) : Double :=
  if digits = 0 then zero negative
  else if 400 < exponent then .infinite negative
  else if (digits.log2 : Int) + 3 * exponent < -1100 then zero negative
  else
    match exponent with
    | .ofNat power => ofRatio negative (digits * Nat.pow 10 power) 1
    | .negSucc power => ofRatio negative digits (Nat.pow 10 (power + 1))

/-- The number nearest to an integer, unless that is out of range. -/
def ofInt? (n : Int) : Option Double :=
  match ofRatio (decide (n < 0)) n.natAbs 1 with
  | .finite negative mantissa exponent =>
      some (.finite negative mantissa exponent)
  | _ => none

def isZero : Double → Bool
  | .finite _ mantissa _ => mantissa == 0
  | _ => false

def isFinite : Double → Bool
  | .finite .. => true
  | _ => false

/-- The integer part of a finite number, toward zero. -/
def truncate? : Double → Option Int
  | .finite negative mantissa exponent =>
      let magnitude : Nat :=
        match exponent with
        | .ofNat power => mantissa * Nat.pow 2 power
        | .negSucc power => mantissa / Nat.pow 2 (power + 1)
      some (if negative then -(magnitude : Int) else magnitude)
  | _ => none

end Double

end TailLoop
