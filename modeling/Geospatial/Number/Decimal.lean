import Geospatial.Number.Binary

/-!
# Decimal numbers and their text

A decimal number is a whole number of units of a decimal place. An exact value is rounded to a
place, a tie going to the even digit, and written positionally or with an exponent.
-/

namespace Geospatial

/-- The number `digits * 10 ^ exponent`, negative where marked; the mark also tells the two zeros
of the doubles apart. -/
structure Decimal where
  negative : Bool
  digits : Nat
  exponent : Int
  deriving DecidableEq, Repr

namespace Decimal

def toRat (d : Decimal) : Rat :=
  let size := ((d.digits * Nat.pow 10 d.exponent.toNat : Nat) : Rat)
    / ((Nat.pow 10 (-d.exponent).toNat : Nat) : Rat)
  if d.negative then -size else size

/-! ## Rounding to a decimal place -/

/-- The multiple of `10 ^ place` nearest to `num / den`, counted in units of that place. -/
def unitsAt (num den : Nat) (place : Int) : Nat :=
  roundDiv (num * Nat.pow 10 (-place).toNat) (den * Nat.pow 10 place.toNat)

/-- The greatest `k` with `10 ^ k ≤ num / den`, for positive numbers. The binary logarithm fixes it
up to one, a comparison decides. -/
def leadingPlace (num den : Nat) : Int :=
  let guess : Int := ((num.log2 : Int) - (den.log2 : Int)) * 30103 / 100000
  let reaches (k : Int) : Bool := decide (den * Nat.pow 10 k.toNat ≤ num * Nat.pow 10 (-k).toNat)
  if reaches (guess + 1) then guess + 1 else if reaches guess then guess else guess - 1

/-- A value rounded to a number of significant digits. Zero keeps its sign and one digit. -/
def significant (count : Nat) (negative : Bool) (num den : Nat) : Decimal :=
  if num = 0 then ⟨negative, 0, 0⟩
  else
    let place := leadingPlace num den - ((count : Int) - 1)
    let units := unitsAt num den place
    if units = Nat.pow 10 count then ⟨negative, Nat.pow 10 (count - 1), place + 1⟩
    else ⟨negative, units, place⟩

def places (count : Nat) (negative : Bool) (num den : Nat) : Decimal :=
  ⟨negative, unitsAt num den (-(count : Int)), -(count : Int)⟩

/-! ## Text -/

def top (d : Decimal) : Int := d.exponent + ((toString d.digits).length : Int) - 1

def dropZeros (digits : List Char) : List Char × Nat :=
  let kept := (digits.reverse.dropWhile (· == '0')).reverse
  (kept, digits.length - kept.length)

def signText (negative : Bool) : String := if negative then "-" else ""

def positional (digits : List Char) (exponent : Int) : String :=
  let whole := digits ++ List.replicate exponent.toNat '0'
  let fraction := (-exponent).toNat
  let padded := List.replicate (fraction + 1 - whole.length) '0' ++ whole
  let cut := padded.length - fraction
  if fraction = 0 then String.ofList padded
  else String.ofList (padded.take cut ++ '.' :: padded.drop cut)

/-- One digit before the point, and the exponent with its sign and at least two digits. -/
def scientific (mark : String) (digits : List Char) (top : Int) : String :=
  let size := toString top.natAbs
  let width := if size.length < 2 then "0" ++ size else size
  let tail := match digits.drop 1 with
    | [] => ""
    | rest => String.ofList ('.' :: rest)
  String.ofList (digits.take 1) ++ tail ++ mark ++ (if top < 0 then "-" else "+") ++ width

/-- The shorter of the two notations as far as the exponent goes: positional for numbers from
`0.0001` whose first digit stands below place `limit`. Zeros at the end are dropped. -/
def general (limit : Nat) (d : Decimal) : String :=
  if d.digits = 0 then signText d.negative ++ "0"
  else
    let (kept, dropped) := dropZeros (toString d.digits).toList
    signText d.negative ++
      if d.top < -4 ∨ (limit : Int) ≤ d.top then scientific "e" kept d.top
      else positional kept (d.exponent + dropped)

def fixed (d : Decimal) : String :=
  signText d.negative ++ positional (toString d.digits).toList d.exponent

def scaled (count : Nat) (d : Decimal) : String :=
  let digits := (toString d.digits).toList
  let padded := digits ++ List.replicate (count - digits.length) '0'
  signText d.negative ++ scientific "E" padded d.top

end Decimal

end Geospatial
