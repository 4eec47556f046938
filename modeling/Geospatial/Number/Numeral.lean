import Geospatial.Number.Shortest

/-!
# Numbers as they were written

A parameter may be written as a whole number or with a fraction or exponent. The value is the
same, but messages quote what was written, so the two are kept apart.
-/

namespace Geospatial

inductive Numeral where
  | integer (n : Int)
  | real (x : Float)
  deriving Inhabited

/-- A parameter: the value that counts, and the numeral that messages quote. -/
structure Given (α : Type) where
  value : α
  numeral : Numeral

def Given.whole (n : Int) : Given Rat := ⟨n, .integer n⟩

namespace Numeral

def toFloat : Numeral → Float
  | integer n => nearestFloat n 1
  | real x => x

/-- The exact value, where it has one: what is infinite or not a number has none. -/
def toRat? : Numeral → Option Rat
  | integer n => some n
  | real x => (Binary.ofFloat? x).map Binary.toRat

def isNegative (x : Float) : Bool := decide (x.toBits.toNat / Nat.pow 2 63 = 1)

/-- The shortest text of a double that reads back: positional from `0.0001` to below `10 ^ 16` and
then with a fraction, else with an exponent. -/
def realText (x : Float) : String :=
  match Binary.ofFloat? x with
  | some b =>
    let d := Decimal.shortest (isNegative x) b
    let text := d.general 16
    if text.contains '.' || text.contains 'e' then text else text ++ ".0"
  | none => if x < 0 then "-inf" else if 0 < x then "inf" else "nan"

def text : Numeral → String
  | integer n => toString n
  | real x => realText x

/-- Two digits and an exponent, for tolerances in messages. -/
def scaledText (a : Numeral) : String :=
  match Binary.ofFloat? a.toFloat with
  | some b =>
    (Decimal.significant 2 (isNegative a.toFloat) b.numerator.natAbs b.denominator).scaled 2
  | none => if a.toFloat < 0 then "-INF" else if 0 < a.toFloat then "INF" else "NAN"

def given (a : Numeral) : Given Float := ⟨a.toFloat, a⟩

def givenRat? (a : Numeral) : Option (Given Rat) := a.toRat?.map fun value => ⟨value, a⟩

end Numeral

end Geospatial
