import TailLoop.Number.Double

/-!
# Shortest decimals

The decimal with the fewest digits that reads back as a given binary64 number,
and of those the nearest one.
-/

namespace TailLoop.Double

/-- The reals that round to `mantissa * 2 ^ exponent`, in units of a quarter of
its last place: the lower end, the number and the upper end. -/
def roundingInterval (mantissa : Nat) (exponent : Int) : Nat × Nat × Nat :=
  let below := if mantissa = Nat.pow 2 52 ∧ leastExponent < exponent then 1 else
    2
  (4 * mantissa - below, 4 * mantissa, 4 * mantissa + 2)

/-- The nearest multiple of `10 ^ power` that rounds to the number, as a
positive multiplier; a half goes to the even one. -/
def nearestMultiple? (mantissa : Nat) (exponent power : Int) : Option Nat :=
  let (low, middle, high) := roundingInterval mantissa exponent
  let up := Nat.pow 2 (exponent - 2).toNat * Nat.pow 10 (-power).toNat
  let unit := Nat.pow 2 (2 - exponent).toNat * Nat.pow 10 power.toNat
  let hits (multiplier : Nat) : Bool :=
    if mantissa % 2 = 0 then
      decide (low * up ≤ multiplier * unit ∧ multiplier * unit ≤ high * up)
    else decide (low * up < multiplier * unit ∧ multiplier * unit < high * up)
  let lower := middle * up / unit
  let nearest := roundDiv (middle * up) unit
  let other := if nearest = lower then lower + 1 else lower
  if lower = 0 then none
  else if hits nearest then some nearest
  else if hits other then some other
  else none

/-- A power of ten above the number. -/
def decimalBound (mantissa : Nat) (exponent : Int) : Int :=
  ((mantissa.log2 : Int) + exponent) * 30103 / 100000 + 1

/-- The shortest decimal `digits * 10 ^ power`.  Seventeen digits always
suffice. -/
def shortest (mantissa : Nat) (exponent : Int) : Nat × Int :=
  let top := decimalBound mantissa exponent
  let found := (List.range 20).findSome? fun (step : Nat) =>
    let power := top - step
    (nearestMultiple? mantissa exponent power).map fun digits => (digits, power)
  found.getD (0, 0)

end TailLoop.Double
