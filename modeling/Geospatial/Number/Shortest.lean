import Geospatial.Number.Decimal

/-!
# The fewest digits that read back

A double stands for all reals that round to it. The shortest text of the double is the decimal
number with the fewest digits in that interval, and of those the one nearest to the double. On
each grid of decimal places only the two neighbours of the exact value can be that number.
-/

namespace Geospatial.Decimal

/-- Whether `units * 10 ^ place` rounds to the double `mantissa * 2 ^ exponent`. The interval
reaches half way to the next doubles, less far down where the mantissa is a power of two, and its
ends belong to it when the mantissa is even. -/
def readsBack (mantissa : Nat) (exponent : Int) (units : Nat) (place : Int) : Bool :=
  let below :=
    if mantissa = Nat.pow 2 52 ∧ -1074 < exponent then 4 * mantissa - 1 else 4 * mantissa - 2
  let above := 4 * mantissa + 2
  let quarter := exponent - 2
  let value := units * Nat.pow 10 place.toNat * Nat.pow 2 (-quarter).toNat
  let scale := Nat.pow 2 quarter.toNat * Nat.pow 10 (-place).toNat
  if mantissa % 2 = 0 then decide (below * scale ≤ value ∧ value ≤ above * scale)
  else decide (below * scale < value ∧ value < above * scale)

def neighbours (mantissa : Nat) (exponent : Int) (num den : Nat) (place : Int) : List Nat :=
  let n := num * Nat.pow 10 (-place).toNat
  let d := den * Nat.pow 10 place.toNat
  let below := n / d
  let near := roundDiv n d
  let far := if near = below then below + 1 else below
  [near, far].filter fun units => readsBack mantissa exponent units place

/-- The decimal number with the fewest digits that reads back as the given double. Seventeen
digits always suffice. -/
def shortest (negative : Bool) (b : Binary) : Decimal :=
  let mantissa := b.mantissa.natAbs
  if mantissa = 0 then ⟨negative, 0, 0⟩
  else
    let num := b.numerator.natAbs
    let top := leadingPlace num b.denominator
    let found := (List.range 17).findSome? fun (more : Nat) =>
      let place := top - (more : Int)
      (neighbours mantissa b.exponent num b.denominator place).head?.map fun units =>
        (⟨negative, units, place⟩ : Decimal)
    found.getD (significant 17 negative num b.denominator)

end Geospatial.Decimal
