import Geospatial.Number.Scalar

/-!
# Exact values of doubles

A finite double is a whole number times a power of two. Here it is taken apart into that pair, and
a quotient of whole numbers is put together into the double nearest to it. The remainder of a
division of doubles and the roundings to whole numbers are computed on the exact values, so no
rounding enters before their last step.
-/

namespace Geospatial

/-- The number `mantissa * 2 ^ exponent`. -/
structure Binary where
  mantissa : Int
  exponent : Int
  deriving DecidableEq, Repr, Inhabited

/-- The quotient of two natural numbers rounded to the nearest one, a tie to the even one. -/
def roundDiv (num den : Nat) : Nat :=
  let q := num / den
  let r := num % den
  if 2 * r < den then q else if den < 2 * r then q + 1 else q + q % 2

namespace Binary

/-- The exact value of a double, none for an infinity or a value that is not a number. -/
def ofFloat? (x : Float) : Option Binary :=
  let bits : Nat := x.toBits.toNat
  let field : Nat := bits / Nat.pow 2 52 % Nat.pow 2 11
  let fraction : Nat := bits % Nat.pow 2 52
  let sign : Int := if bits / Nat.pow 2 63 = 1 then -1 else 1
  if field = 2047 then none
  else if field = 0 then some ⟨sign * (fraction : Int), -1074⟩
  else some ⟨sign * ((Nat.pow 2 52 + fraction : Nat) : Int), (field : Int) - 1075⟩

def numerator (b : Binary) : Int := b.mantissa * Nat.pow 2 b.exponent.toNat

def denominator (b : Binary) : Nat := Nat.pow 2 (-b.exponent).toNat

def toRat (b : Binary) : Rat := (b.numerator : Rat) / (b.denominator : Rat)

def floor (b : Binary) : Int := Int.fdiv b.numerator b.denominator

def ceiling (b : Binary) : Int := -Int.fdiv (-b.numerator) b.denominator

/-- The nearest whole number, the even one of two. -/
def nearest (b : Binary) : Int :=
  let q := (roundDiv b.numerator.natAbs b.denominator : Int)
  if b.numerator < 0 then -q else q

/-- The remainder of the division of one number by another, with the sign of the first. -/
def remainder (a b : Binary) : Binary :=
  let low := min a.exponent b.exponent
  let whole (c : Binary) : Int := c.mantissa * Nat.pow 2 (c.exponent - low).toNat
  ⟨Int.tmod (whole a) (whole b), low⟩

def toFloat (b : Binary) : Float := (Float.ofInt b.mantissa).scaleB b.exponent

end Binary

/-- The exponent of the last binary place of the double nearest to `num / den`, for positive
numbers: 53 places, or fewer where the doubles end. -/
def lastPlace (num den : Nat) : Int :=
  let guess := (num.log2 : Int) - (den.log2 : Int)
  let reaches := den * Nat.pow 2 guess.toNat ≤ num * Nat.pow 2 (-guess).toNat
  let top := if reaches then guess else guess - 1
  max (top - 52) (-1074)

/-- The double nearest to `num / den`, of two the one with an even mantissa. -/
def nearestFloat (num : Int) (den : Nat) : Float :=
  if num = 0 then 0
  else
    let place := lastPlace num.natAbs den
    let mantissa := roundDiv (num.natAbs * Nat.pow 2 (-place).toNat) (den * Nat.pow 2 place.toNat)
    let size := (Float.ofNat mantissa).scaleB place
    if num < 0 then -size else size

def nearestOfRat (q : Rat) : Float := nearestFloat q.num q.den

/-- The remainder of a division that rounds the quotient down: it has the sign of the divisor,
also when it is zero. -/
def floatModulo (a m : Float) : Float :=
  match Binary.ofFloat? a, Binary.ofFloat? m with
  | some p, some q =>
    if q.mantissa = 0 then 0 / 0
    else
      let r := (p.remainder q).toFloat
      if r == 0 then (if m < 0 then -0.0 else 0.0)
      else if (r < 0) != (m < 0) then r + m else r
  | _, _ => 0 / 0

instance : Rounding Float where
  modulo := floatModulo
  ceiling x := ((Binary.ofFloat? x).map Binary.ceiling).getD 0
  floor x := ((Binary.ofFloat? x).map Binary.floor).getD 0
  nearest x := ((Binary.ofFloat? x).map Binary.nearest).getD 0

end Geospatial
