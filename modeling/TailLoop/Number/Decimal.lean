import TailLoop.Number.Shortest
import TailLoop.Text.Basic

/-!
# Decimal texts

Binary64 numbers are written with their shortest digits.
-/

namespace TailLoop

/-- How decimals are written: the exponents of ten that are written
positionally, and the least number of digits of a written exponent. -/
structure DecimalStyle where
  leastPositional : Int
  greatestPositional : Int
  exponentDigits : Nat

namespace DecimalStyle

def zeros (count : Nat) : Text :=
  List.replicate count (CodePoint.ofChar '0')

/-- Digits whose point stands after the given number of places, at least one
digit on each side of it. -/
def positional (digits : Text) (place : Int) : Text :=
  if place ≤ 0 then "0." ++ zeros (-place).toNat ++ digits
  else if place.toNat < digits.length then
    digits.take place.toNat ++ "." ++ digits.drop place.toNat
  else digits ++ zeros (place.toNat - digits.length) ++ ".0"

/-- One digit before the point, and the point only if digits follow it. -/
def scientific (style : DecimalStyle) (digits : Text) (exponent : Int) : Text :=
  let fraction : Text := if digits.length ≤ 1 then [] else "." ++ digits.drop 1
  let sign : Text := if exponent < 0 then "-" else "+"
  let power := Text.ofNat exponent.natAbs
  digits.take 1 ++ fraction ++ "e" ++ sign ++
    zeros (style.exponentDigits - power.length) ++ power

def write (style : DecimalStyle) (digits : Text) (place : Int) : Text :=
  if style.leastPositional ≤ place - 1 ∧
    place - 1 ≤ style.greatestPositional then
    positional digits place
  else style.scientific digits (place - 1)

end DecimalStyle

namespace Double

/-- Numbers from 10⁻⁴ to below 10¹⁶ are written positionally; a written exponent
has at least two digits. -/
def style : DecimalStyle := ⟨-4, 15, 2⟩

def magnitudeText (mantissa : Nat) (exponent : Int) : Text :=
  if mantissa = 0 then "0.0"
  else
    let (multiplier, power) := shortest mantissa exponent
    let digits := Text.ofNat multiplier
    let significant :=
      (digits.reverse.dropWhile (· = CodePoint.ofChar '0')).reverse
    style.write significant (power + digits.length)

def text : Double → Text
  | .nan => "nan"
  | .infinite negative => if negative then "-inf" else "inf"
  | .finite negative mantissa exponent =>
      (if negative then "-" else "") ++ magnitudeText mantissa exponent

end Double

end TailLoop
