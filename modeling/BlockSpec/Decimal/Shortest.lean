import BlockSpec.Decimal.Binary64

/-! # The shortest decimal of a number

A number in double precision is written with the fewest decimal digits that read back as the same
number; of several such decimals the nearest is taken, and of two that are equally near the larger
one. The digits are written out positionally, with a point even for whole numbers. -/

namespace BlockSpec

/-- The decimal `digits · 10 ^ exponent`. -/
structure Decimal where
  digits : Nat
  exponent : Int
  deriving DecidableEq, Repr

namespace Binary64

/-- The number itself and the ends of the interval of reals that round to it, as numerators over
one denominator: low end, number, high end, denominator. Below a power of two the interval is only
half as wide. -/
def interval (b : Binary64) : Nat × Nat × Nat × Nat :=
  let below := if b.mantissa = Nat.pow 2 52 && minExponent < b.exponent then 1 else 2
  let unit := Nat.pow 2 b.exponent.toNat
  (unit * (4 * b.mantissa - below), unit * (4 * b.mantissa), unit * (4 * b.mantissa + 2),
    4 * Nat.pow 2 (-b.exponent).toNat)

/-- How many digits a positive fraction has before the point; zero or less counts the zeros after
it. -/
def places (num den : Nat) : Int :=
  if den ≤ num then (Nat.toDigits 10 (num / den)).length
  else
    match (List.range 400).find? fun j => den ≤ num * Nat.pow 10 (j + 1) with
    | some j => -(j : Int)
    | none => -400

/-- The decimal of so many digits that lies in the interval, the nearer one if there are two; a tie
goes up. -/
def decimalOf? (b : Binary64) (count : Nat) : Option Decimal :=
  let (low, value, high, den) := b.interval
  let k : Int := places value den - count
  let up := Nat.pow 10 k.toNat * den
  let down := Nat.pow 10 (-k).toNat
  let c := value * down / up
  let inside (c : Nat) : Bool :=
    if b.mantissa % 2 = 0 then low * down ≤ c * up && c * up ≤ high * down
    else low * down < c * up && c * up < high * down
  let nearer := 2 * (value * down) < (2 * c + 1) * up
  if inside c && (nearer || !inside (c + 1)) then some ⟨c, k⟩
  else if inside (c + 1) then some ⟨c + 1, k⟩
  else none

/-- The shortest decimal. Seventeen digits are always enough. -/
def shortest (b : Binary64) : Decimal :=
  if b.mantissa = 0 then ⟨0, 0⟩
  else ((List.range 17).findSome? fun n => b.decimalOf? (n + 1)).getD ⟨0, 0⟩

end Binary64

namespace Decimal

/-- The decimal written out, with at least one digit on each side of the point and no needless zero
behind. -/
def positional (d : Decimal) : Text :=
  let digits := Text.ofNat d.digits
  let whole := digits ++ List.replicate d.exponent.toNat '0'
  let shift := (-d.exponent).toNat
  let padded := List.replicate (shift + 1 - whole.length) '0' ++ whole
  let cut := padded.length - shift
  let fraction := Text.dropTrailing '0' (padded.drop cut)
  padded.take cut ++ '.' :: (if fraction.isEmpty then ['0'] else fraction)

end Decimal

end BlockSpec
